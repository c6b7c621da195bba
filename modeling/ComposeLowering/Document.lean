import ComposeLowering.Decimal.Written
import ComposeLowering.Text.Quoted

/-!
# Documents

A document is a tree of the usual data-interchange values: null, booleans, integers,
floating-point numbers, strings, sequences and maps. Requests and answers are documents, and
options are read from one.

Numbers are integers when written without a fraction or exponent and within the 64-bit range
(unsigned for non-negative values, signed for negative ones, `-0` excepted); every other number
is a double. Map entries are kept sorted by key, each key once.

When a value has the wrong shape, the error names what was found: `null`, ``boolean `true` ``,
``integer `3` ``, ``floating point `1.5` ``, a quoted string, `sequence` or `map`.
Floating-point numbers are named in their shortest form, positional for decimal exponents from
-5 to 15 and scientific with a signed exponent otherwise (`1e+16`, `2.5e-7`).
-/

namespace ComposeLowering

/-- A document. -/
inductive Document where
  | null
  | bool (b : Bool)
  | int (v : Int)
  /-- A floating-point number, by its double-precision bit pattern. -/
  | float (bits : UInt64)
  | str (s : String)
  | seq (items : List Document)
  /-- Entries sorted by key, each key once. -/
  | map (entries : List (String × Document))
  deriving Inhabited

namespace Document

/-- The layout of floating-point numbers named in errors and written in JSON text. -/
def floatNotation : Decimal.Notation := ⟨-5, 15, "NaN", "inf", true, .even⟩

/-- What a value is called when it is not what was expected. -/
def unexpected : Document → String
  | .null => "null"
  | .bool b => "boolean `" ++ (if b then "true" else "false") ++ "`"
  | .int v => "integer `" ++ toString v ++ "`"
  | .float bits => "floating point `" ++ floatNotation.write .binary64 bits.toNat ++ "`"
  | .str s => "string " ++ Text.quoteString s
  | .seq _ => "sequence"
  | .map _ => "map"

/-- The value of a key in a map; `none` for a missing key or a document that is no map. -/
def field? (d : Document) (key : String) : Option Document :=
  match d with
  | .map entries => entries.lookup key
  | _ => none

/-- Inserts an entry into entries sorted by key, replacing an entry with the same key. -/
def insertEntry (k : String) (v : Document) : List (String × Document) → List (String × Document)
  | [] => [(k, v)]
  | (k', v') :: rest =>
    if k = k' then (k, v) :: rest
    else if k < k' then (k, v) :: (k', v') :: rest
    else (k', v') :: insertEntry k v rest

/-- A map from entries in any order, a later entry replacing an earlier one with its key. -/
def ofEntries (entries : List (String × Document)) : Document :=
  .map (entries.foldl (fun acc (k, v) => insertEntry k v acc) [])

end Document

end ComposeLowering
