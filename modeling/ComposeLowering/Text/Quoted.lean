import ComposeLowering.Text.Printable
import ComposeLowering.Text.GraphemeExtend

/-!
# Quoted literals

String and character constants are written between quotes with a backslash escape for every
character that could not be read back or seen: the five named escapes `\0 \t \r \n \\`, the
enclosing quote, and `\u{hex}` (lowercase hexadecimal, no leading zeros) for grapheme
extenders and for characters that are not printable. The other quote is written as it is.
Grapheme extenders are escaped so that a combining mark never attaches to the quote or the
backslash before it.
-/

namespace ComposeLowering

namespace Text

/-- The `\u{hex}` escape of a character. -/
def unicodeEscape (c : Char) : String :=
  "\\u\x7b" ++ String.ofList (Nat.toDigits 16 c.toNat) ++ "\x7d"

/-- How one character is written inside a literal enclosed by `quote`. -/
def escapeChar (quote : Char) (c : Char) : String :=
  if c = '\x00' then "\\0"
  else if c = '\t' then "\\t"
  else if c = '\r' then "\\r"
  else if c = '\n' then "\\n"
  else if c = '\\' then "\\\\"
  else if c = quote then String.ofList ['\\', c]
  else if isGraphemeExtend c then unicodeEscape c
  else if isPrintable c then String.singleton c
  else unicodeEscape c

/-- A string written as a double-quoted literal. -/
def quoteString (s : String) : String :=
  "\"" ++ String.join (s.toList.map (escapeChar '"')) ++ "\""

/-- A character written as a single-quoted literal. -/
def quoteChar (c : Char) : String :=
  "'" ++ escapeChar '\'' c ++ "'"

/-- A list of strings written as a bracketed, comma-separated list of quoted literals. -/
def quoteList (xs : List String) : String :=
  "[" ++ ", ".intercalate (xs.map quoteString) ++ "]"

end Text

end ComposeLowering
