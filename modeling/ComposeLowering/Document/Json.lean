import ComposeLowering.Document
import ComposeLowering.Decimal.Scaled

/-!
# JSON text

Reads and writes documents as JSON text.

Reading follows the JSON grammar strictly and reports the first thing wrong, with its line and
column (a column counts bytes of the UTF-8 text). Blanks are space, tab, line feed and carriage
return. Strings take the escapes `\" \\ \/ \b \f \n \r \t \uXXXX`; a surrogate pair is two
escapes, and a lone surrogate is an error, as is a raw control character. Arrays and objects may
nest 127 deep. In an object a later entry replaces an earlier one with the same key.

Numbers keep their form: without a fraction or an exponent a number is an integer when it fits
64 bits (unsigned when nonnegative, signed when negative, `-0` excepted). Every other number is
a double, read the quick way (`Decimal.scaledDecimal`) from its first digits: digits that would
overflow 64 bits are dropped, counted in the exponent when they stand before the point. An
exponent of more than nine digits either makes the value zero or is out of range.

Writing produces compact text with the escapes `\" \\ \b \f \n \r \t` and `\u00XX` for the other
control characters; a double is written in shortest form (`jsonNotation`), and a NaN or
infinity as `null`.
-/

namespace ComposeLowering

namespace Document

/-! ## Reading -/

/-- Why text could not be read as JSON, and the byte offset where reading stopped. -/
structure SyntaxError where
  reason : String
  offset : Nat
  deriving Inhabited

/-! The reasons of syntax errors. -/

namespace SyntaxError

def eofValue : String := "EOF while parsing a value"
def eofList : String := "EOF while parsing a list"
def eofObject : String := "EOF while parsing an object"
def eofString : String := "EOF while parsing a string"
def expectedColon : String := "expected `:`"
def expectedListCommaOrEnd : String := "expected `,` or `]`"
def expectedObjectCommaOrEnd : String := "expected `,` or `\x7d`"
def expectedIdent : String := "expected ident"
def expectedValue : String := "expected value"
def invalidEscape : String := "invalid escape"
def invalidNumber : String := "invalid number"
def numberOutOfRange : String := "number out of range"
def controlCharacter : String := "control character (\\u0000-\\u001F) found while parsing a string"
def keyMustBeString : String := "key must be a string"
def loneSurrogate : String := "lone leading surrogate in hex escape"
def trailingComma : String := "trailing comma"
def trailingCharacters : String := "trailing characters"
def unexpectedEndOfHexEscape : String := "unexpected end of hex escape"
def recursionLimit : String := "recursion limit exceeded"

end SyntaxError

open SyntaxError

/-- What reading gives: a value, the characters after it and their byte offset. -/
abbrev Reading (α : Type) := Except SyntaxError (α × List Char × Nat)

/-- The offset of an error found by looking at the next character without taking it: one past
that character's first byte, or the offset itself at the end of the text. -/
def peekOffset (cs : List Char) (off : Nat) : Nat := if cs.isEmpty then off else off + 1

/-- Drops leading blanks, counting their bytes. -/
def skipBlanks : List Char → Nat → List Char × Nat
  | c :: r, off => if c = ' ' ∨ c = '\t' ∨ c = '\n' ∨ c = '\r' then skipBlanks r (off + 1) else (c :: r, off)
  | [], off => ([], off)

/-! ### Numbers -/

/-- The largest 64-bit natural. -/
def maxWord : Nat := Nat.pow 2 64 - 1

/-- The largest 32-bit signed integer. -/
def maxInt32 : Nat := Nat.pow 2 31 - 1

/-- Whether `acc · 10 + d` would exceed `limit`. -/
def overflows (acc d limit : Nat) : Bool := acc ≥ limit / 10 && (acc > limit / 10 || d > limit % 10)

/-- An integer clamped to the 32-bit signed range. -/
def clampInt32 (v : Int) : Int := max (-(Nat.pow 2 31 : Int)) (min v maxInt32)

/-- The value of an ASCII digit. -/
def digitValue (c : Char) : Nat := c.toNat - '0'.toNat

/-- Skips digits, counting their bytes. -/
def skipDigits : List Char → Nat → List Char × Nat
  | c :: r, off => if c.isDigit then skipDigits r (off + 1) else (c :: r, off)
  | [], off => ([], off)

/-- The double read from `±significand · 10^exponent`; the error offset is where the number
ends. -/
def quickFloat (negative : Bool) (significand : Nat) (exponent : Int) (cs : List Char) (off : Nat) :
    Reading Document :=
  match Decimal.scaledDecimal negative significand exponent with
  | some bits => .ok (.float bits.toUInt64, cs, off)
  | none => .error ⟨numberOutOfRange, off⟩

/-- A signed zero double. -/
def zeroFloat (negative : Bool) : Document :=
  .float (if negative then (Nat.pow 2 63).toUInt64 else 0)

/-- Reads the digits of an exponent after its first one; `start` is the exponent the mantissa
carries. An exponent beyond the 32-bit range makes a nonzero value with a positive exponent out
of range and every other value zero. -/
def exponentDigits (negative positiveExp : Bool) (significand : Nat) (start : Int) :
    Nat → List Char → Nat → Reading Document
  | exp, c :: r, off =>
    if c.isDigit then
      if overflows exp (digitValue c) maxInt32 then
        if significand ≠ 0 ∧ positiveExp then .error ⟨numberOutOfRange, off + 1⟩
        else
          let (r', off') := skipDigits r (off + 1)
          .ok (zeroFloat negative, r', off')
      else exponentDigits negative positiveExp significand start (exp * 10 + digitValue c) r (off + 1)
    else
      quickFloat negative significand (clampInt32 (if positiveExp then start + exp else start - exp)) (c :: r) off
  | exp, [], off =>
    quickFloat negative significand (clampInt32 (if positiveExp then start + exp else start - exp)) [] off

/-- Reads an exponent after its `e`: an optional sign and at least one digit. -/
def readExponent (negative : Bool) (significand : Nat) (start : Int) (cs : List Char) (off : Nat) :
    Reading Document :=
  let (positiveExp, cs, off) := match cs with
    | '+' :: r => (true, r, off + 1)
    | '-' :: r => (false, r, off + 1)
    | r => (true, r, off)
  match cs with
  | [] => .error ⟨eofValue, off⟩
  | c :: r =>
    if c.isDigit then exponentDigits negative positiveExp significand start (digitValue c) r (off + 1)
    else .error ⟨invalidNumber, off + 1⟩

/-- After the mantissa: an exponent, or the end of the number. -/
def afterMantissa (negative : Bool) (significand : Nat) (exponent : Int) : List Char → Nat → Reading Document
  | c :: r, off =>
    if c = 'e' ∨ c = 'E' then readExponent negative significand exponent r (off + 1)
    else quickFloat negative significand exponent (c :: r) off
  | [], off => quickFloat negative significand exponent [] off

/-- Reads the digits after the point; `after` counts them negatively. A digit that would
overflow the significand ends the digits taken, and the rest are skipped. At least one digit
must follow the point. -/
def fractionDigits (negative : Bool) (before : Int) : Nat → Int → List Char → Nat → Reading Document
  | sig, after, c :: r, off =>
    if c.isDigit then
      if overflows sig (digitValue c) maxWord then
        let (r', off') := skipDigits (c :: r) off
        afterMantissa negative sig (before + after) r' off'
      else fractionDigits negative before (sig * 10 + digitValue c) (after - 1) r (off + 1)
    else if after = 0 then .error ⟨invalidNumber, off + 1⟩
    else afterMantissa negative sig (before + after) (c :: r) off
  | sig, after, [], off =>
    if after = 0 then .error ⟨eofValue, off⟩
    else afterMantissa negative sig (before + after) [] off

/-- Reads the digits of an integer part too long for 64 bits: they only raise the exponent. -/
def longDigits (negative : Bool) (sig : Nat) : Nat → List Char → Nat → Reading Document
  | exp, c :: r, off =>
    if c.isDigit then longDigits negative sig (exp + 1) r (off + 1)
    else if c = '.' then fractionDigits negative exp sig 0 r (off + 1)
    else if c = 'e' ∨ c = 'E' then readExponent negative sig exp r (off + 1)
    else quickFloat negative sig exp (c :: r) off
  | exp, [], off => quickFloat negative sig exp [] off

/-- After the integer part: a fraction, an exponent, or an integer. A negative integer outside
the signed 64-bit range, and `-0`, are doubles. -/
def afterInteger (negative : Bool) (sig : Nat) (cs : List Char) (off : Nat) : Reading Document :=
  match cs with
  | '.' :: r => fractionDigits negative 0 sig 0 r (off + 1)
  | c :: r =>
    if c = 'e' ∨ c = 'E' then readExponent negative sig 0 r (off + 1)
    else integer (c :: r)
  | [] => integer []
where
  integer (rest : List Char) : Reading Document :=
    if !negative then .ok (.int sig, rest, off)
    else if sig = 0 ∨ sig > Nat.pow 2 63 then
      .ok (.float (Decimal.BinaryFormat.binary64.negate (Decimal.BinaryFormat.binary64.ofNat sig)).toUInt64, rest, off)
    else .ok (.int (-(sig : Int)), rest, off)

/-- Reads the digits of an integer part that fits 64 bits so far. -/
def integerDigits (negative : Bool) : Nat → List Char → Nat → Reading Document
  | sig, c :: r, off =>
    if c.isDigit then
      if overflows sig (digitValue c) maxWord then longDigits negative sig 0 (c :: r) off
      else integerDigits negative (sig * 10 + digitValue c) r (off + 1)
    else afterInteger negative sig (c :: r) off
  | sig, [], off => afterInteger negative sig [] off

/-- Reads a number after its optional minus sign: a single `0` or digits not starting with `0`,
then an optional fraction and exponent. -/
def readNumber (negative : Bool) : List Char → Nat → Reading Document
  | [], off => .error ⟨eofValue, off⟩
  | '0' :: r, off =>
    match r with
    | c :: _ => if c.isDigit then .error ⟨invalidNumber, off + 2⟩ else afterInteger negative 0 r (off + 1)
    | [] => afterInteger negative 0 [] (off + 1)
  | c :: r, off =>
    if c.isDigit then integerDigits negative (digitValue c) r (off + 1)
    else .error ⟨invalidNumber, off + 1⟩

/-! ### Strings -/

/-- The value of a hexadecimal digit. -/
def hexValue? (c : Char) : Option Nat :=
  if '0' ≤ c ∧ c ≤ '9' then some (c.toNat - '0'.toNat)
  else if 'a' ≤ c ∧ c ≤ 'f' then some (c.toNat - 'a'.toNat + 10)
  else if 'A' ≤ c ∧ c ≤ 'F' then some (c.toNat - 'A'.toNat + 10)
  else none

/-- Reads the four hexadecimal digits of a `\u` escape; fewer than four bytes left is the end
of the text. -/
def hexEscape (len : Nat) (cs : List Char) (off : Nat) : Reading Nat :=
  if off + 4 > len then .error ⟨eofString, len⟩
  else match cs with
    | a :: b :: c :: d :: r =>
      match hexValue? a, hexValue? b, hexValue? c, hexValue? d with
      | some va, some vb, some vc, some vd => .ok (((va * 16 + vb) * 16 + vc) * 16 + vd, r, off + 4)
      | _, _, _, _ => .error ⟨invalidEscape, off + 4⟩
    | _ => .error ⟨invalidEscape, off + 4⟩

/-- The character of a one-letter escape. -/
def simpleEscape : Char → Option Char
  | '"' => some '"'
  | '\\' => some '\\'
  | '/' => some '/'
  | 'b' => some '\x08'
  | 'f' => some '\x0c'
  | 'n' => some '\n'
  | 'r' => some '\r'
  | 't' => some '\t'
  | _ => none

/-- Reads a `\u` escape after its `u`: a character outside the surrogates, or a leading
surrogate followed at once by a `\u` escape of a trailing one. -/
def unicodeEscape (len : Nat) (cs : List Char) (off : Nat) :
    Except SyntaxError (Char × List Char × Nat) := do
  let (n, r, off) ← hexEscape len cs off
  if 0xDC00 ≤ n ∧ n ≤ 0xDFFF then throw ⟨loneSurrogate, off⟩
  if n < 0xD800 ∨ n > 0xDBFF then return (Char.ofNat n, r, off)
  match r with
  | [] => throw ⟨eofString, off⟩
  | '\\' :: r₂ =>
    match r₂ with
    | [] => throw ⟨eofString, off + 1⟩
    | 'u' :: r₃ =>
      let (n₂, r₄, off₄) ← hexEscape len r₃ (off + 2)
      if n₂ < 0xDC00 ∨ n₂ > 0xDFFF then throw ⟨loneSurrogate, off₄⟩
      return (Char.ofNat (((n - 0xD800) * 0x400 + (n₂ - 0xDC00)) + 0x10000), r₄, off₄)
    | _ :: _ => throw ⟨unexpectedEndOfHexEscape, off + 2⟩
  | _ :: _ => throw ⟨unexpectedEndOfHexEscape, off + 1⟩

/-- Reads the rest of a string after its opening quote, collecting characters in reverse. Each
step takes at least one character, so `fuel` at least the length of the text suffices. -/
def readString (len : Nat) : Nat → List Char → Nat → List Char → Reading String
  | 0, _, off, _ => .error ⟨eofString, off⟩
  | _ + 1, [], off, _ => .error ⟨eofString, off⟩
  | fuel + 1, c :: r, off, acc =>
    if c = '"' then .ok (String.ofList acc.reverse, r, off + 1)
    else if c = '\\' then
      match r with
      | [] => .error ⟨eofString, off + 1⟩
      | e :: r' =>
        match simpleEscape e with
        | some x => readString len fuel r' (off + 2) (x :: acc)
        | none =>
          if e = 'u' then
            match unicodeEscape len r' (off + 2) with
            | .ok (x, r'', off'') => readString len fuel r'' off'' (x :: acc)
            | .error err => .error err
          else .error ⟨invalidEscape, off + 2⟩
    else if c.toNat < 0x20 then .error ⟨controlCharacter, off + 1⟩
    else readString len fuel r (off + c.utf8Size) (c :: acc)

/-! ### Values -/

/-- Reads the letters of a keyword after its first one. -/
def readIdent : List Char → List Char → Nat → Except SyntaxError (List Char × Nat)
  | [], cs, off => .ok (cs, off)
  | _ :: _, [], off => .error ⟨eofValue, off⟩
  | e :: es, c :: r, off =>
    if c = e then readIdent es r (off + c.utf8Size) else .error ⟨expectedIdent, off + 1⟩

/-- What follows in an array, before an item or at its end: `true` with the position of the
next item, or `false` with the position after the closing bracket. Items after the first are
preceded by a comma, and a comma must be followed by an item. -/
def itemStart (first : Bool) (cs : List Char) (off : Nat) : Reading Bool :=
  let (cs, off) := skipBlanks cs off
  match cs with
  | [] => .error ⟨eofList, off⟩
  | c :: r =>
    if c = ']' then .ok (false, r, off + 1)
    else if first then .ok (true, c :: r, off)
    else if c = ',' then
      let (cs', off') := skipBlanks r (off + 1)
      match cs' with
      | [] => .error ⟨eofValue, off'⟩
      | d :: _ => if d = ']' then .error ⟨trailingComma, off' + 1⟩ else .ok (true, cs', off')
    else .error ⟨expectedListCommaOrEnd, off + 1⟩

/-- What follows in an object, before an entry or at its end: the key of the next entry with
the position of its value after the colon, or `none` with the position after the closing brace.
Entries after the first are preceded by a comma, a comma must be followed by an entry, and a
key is a string. -/
def entryStart (len : Nat) (first : Bool) (cs : List Char) (off : Nat) : Reading (Option String) :=
  let (cs, off) := skipBlanks cs off
  match cs with
  | [] => .error ⟨eofObject, off⟩
  | c :: r =>
    if c = '\x7d' then .ok (none, r, off + 1)
    else if first then key (c :: r) off
    else if c = ',' then
      let (cs', off') := skipBlanks r (off + 1)
      match cs' with
      | [] => .error ⟨eofValue, off'⟩
      | d :: _ => if d = '\x7d' then .error ⟨trailingComma, off' + 1⟩ else key cs' off'
    else .error ⟨expectedObjectCommaOrEnd, off + 1⟩
where
  key (cs : List Char) (off : Nat) : Reading (Option String) :=
    match cs with
    | '"' :: r =>
      match readString len (len + 1) r (off + 1) [] with
      | .error e => .error e
      | .ok (k, r, o) =>
        let (r, o) := skipBlanks r o
        match r with
        | ':' :: r' => .ok (some k, r', o + 1)
        | [] => .error ⟨eofObject, o⟩
        | _ :: _ => .error ⟨expectedColon, o + 1⟩
    | _ => .error ⟨keyMustBeString, peekOffset cs off⟩

mutual

/-- Reads one value; `depth` is how many more arrays and objects may open. -/
def readValue (len : Nat) : Nat → Nat → List Char → Nat → Reading Document
  | 0, _, _, off => .error ⟨recursionLimit, off⟩
  | fuel + 1, depth, cs, off =>
    let (cs, off) := skipBlanks cs off
    match cs with
    | [] => .error ⟨eofValue, off⟩
    | c :: r =>
      if c = 'n' then (readIdent ['u', 'l', 'l'] r (off + 1)).map fun (r', o) => (.null, r', o)
      else if c = 't' then (readIdent ['r', 'u', 'e'] r (off + 1)).map fun (r', o) => (.bool true, r', o)
      else if c = 'f' then (readIdent ['a', 'l', 's', 'e'] r (off + 1)).map fun (r', o) => (.bool false, r', o)
      else if c = '-' then readNumber true r (off + 1)
      else if c.isDigit then readNumber false (c :: r) off
      else if c = '"' then (readString len (len + 1) r (off + 1) []).map fun (s, r', o) => (.str s, r', o)
      else if c = '[' then
        if depth ≤ 1 then .error ⟨recursionLimit, off + 1⟩
        else readItems len fuel (depth - 1) true [] r (off + 1)
      else if c = '\x7b' then
        if depth ≤ 1 then .error ⟨recursionLimit, off + 1⟩
        else readEntries len fuel (depth - 1) true [] r (off + 1)
      else .error ⟨expectedValue, off + 1⟩

/-- Reads the items of an array after its opening bracket, collecting them in reverse, up to and
including the closing bracket. -/
def readItems (len : Nat) : Nat → Nat → Bool → List Document → List Char → Nat → Reading Document
  | 0, _, _, _, _, off => .error ⟨recursionLimit, off⟩
  | fuel + 1, depth, first, acc, cs, off =>
    match itemStart first cs off with
    | .error e => .error e
    | .ok (false, r, o) => .ok (.seq acc.reverse, r, o)
    | .ok (true, r, o) =>
      match readValue len fuel depth r o with
      | .ok (v, r', o') => readItems len fuel depth false (v :: acc) r' o'
      | .error e => .error e

/-- Reads the entries of an object after its opening brace, collecting them in reverse, up to
and including the closing brace. -/
def readEntries (len : Nat) : Nat → Nat → Bool → List (String × Document) → List Char → Nat →
    Reading Document
  | 0, _, _, _, _, off => .error ⟨recursionLimit, off⟩
  | fuel + 1, depth, first, acc, cs, off =>
    match entryStart len first cs off with
    | .error e => .error e
    | .ok (none, r, o) => .ok (.ofEntries acc.reverse, r, o)
    | .ok (some k, r, o) =>
      match readValue len fuel depth r o with
      | .ok (v, r', o') => readEntries len fuel depth false ((k, v) :: acc) r' o'
      | .error e => .error e

end

/-- The line (from 1) and column (in bytes, from 0 before the first) of a byte offset: the
column counts the bytes after the last line feed before the offset. -/
def lineColumn (cs : List Char) (offset : Nat) : Nat × Nat :=
  go cs 0 1 0
where
  go : List Char → Nat → Nat → Nat → Nat × Nat
    | c :: r, pos, line, lineStart =>
      if pos + c.utf8Size ≤ offset then
        if c = '\n' then go r (pos + 1) (line + 1) (pos + 1) else go r (pos + c.utf8Size) line lineStart
      else (line, offset - lineStart)
    | [], _, line, lineStart => (line, offset - lineStart)

/-- Reads a whole text as one document; blanks may surround it. The error is the reason with
its line and column. -/
def ofJson (s : String) : Except String Document :=
  let cs := s.toList
  let len := s.utf8ByteSize
  let result : Except SyntaxError Document := do
    let (d, rest, off) ← readValue len (4 * (cs.length + 2)) 128 cs 0
    let (rest, off) := skipBlanks rest off
    if rest.isEmpty then return d else throw ⟨trailingCharacters, off + 1⟩
  match result with
  | .ok d => .ok d
  | .error e =>
    let (line, column) := lineColumn cs e.offset
    .error (e.reason ++ " at line " ++ toString line ++ " column " ++ toString column)

/-! ## Writing -/

/-- A control character's `\u00XX` escape, in lowercase hexadecimal. -/
def controlEscape (c : Char) : String :=
  let h := Nat.toDigits 16 c.toNat
  "\\u" ++ String.ofList (List.replicate (4 - h.length) '0' ++ h)

/-- A character as written inside a JSON string. -/
def jsonChar (c : Char) : String :=
  if c = '"' then "\\\""
  else if c = '\\' then "\\\\"
  else if c = '\n' then "\\n"
  else if c = '\r' then "\\r"
  else if c = '\t' then "\\t"
  else if c = '\x08' then "\\b"
  else if c = '\x0c' then "\\f"
  else if c.toNat < 0x20 then controlEscape c
  else String.singleton c

/-- A string as a JSON string literal. -/
def jsonString (s : String) : String := "\"" ++ String.join (s.toList.map jsonChar) ++ "\""

/-- The layout of doubles in JSON text: shortest digits, positional for decimal exponents
from -5 to 15 (an integral value keeps `.0`), otherwise scientific with a signed exponent
(`1e+16`, `2.5e-7`). -/
def jsonNotation : Decimal.Notation := ⟨-5, 15, "NaN", "inf", true, .even⟩

/-- The JSON text of a double: shortest form, or `null` for a NaN or an infinity. -/
def jsonFloat (bits : UInt64) : String :=
  match Decimal.BinaryFormat.binary64.decode bits.toNat with
  | .nan | .infinity _ => "null"
  | _ => jsonNotation.write .binary64 bits.toNat

/-- The compact JSON text of a document. -/
def toJson : Document → String
  | .null => "null"
  | .bool b => if b then "true" else "false"
  | .int v => toString v
  | .float bits => jsonFloat bits
  | .str s => jsonString s
  | .seq items => "[" ++ ",".intercalate (items.attach.map fun ⟨x, _⟩ => x.toJson) ++ "]"
  | .map entries =>
    "\x7b" ++ ",".intercalate (entries.attach.map fun ⟨(k, v), _⟩ => jsonString k ++ ":" ++ v.toJson) ++ "\x7d"
  termination_by d => sizeOf d
  decreasing_by
    all_goals simp_wf
    · have := List.sizeOf_lt_of_mem ‹_›; omega
    · have := List.sizeOf_lt_of_mem ‹_›; simp at this; omega

end Document

end ComposeLowering
