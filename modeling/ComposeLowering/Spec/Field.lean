import ComposeLowering.Document.Json
import ComposeLowering.Decimal.Literal
import ComposeLowering.Link.Signature

/-!
# Fields of module descriptions

Requests describe modules, types and expressions as documents. This module holds the rules by
which each kind of field is read; the builder reads descriptions with them as it builds, so the
first field that breaks a rule is the one reported.

* A text field that is absent or `null` takes its default; any other value but a string is
  malformed (`` `key` must be a string``).
* A flag that is absent or `null` is false; any other value but a boolean is malformed.
* A count that is absent or `null` takes its default; any other value but an integer from `0`
  to `2^64 - 1` is malformed.
* A list field that is absent or `null` is empty; any other value but a list is malformed.
* An optional type, expression or reference whose value is `null` is absent.

A key that selects a form (a type's `class`, an expression's `string` or `block`) is read
whenever it is present, `null` included. Fields of a document that is no map are all absent.
-/

namespace ComposeLowering

namespace Document

/-- The nesting depth of a document. -/
def depth : Document → Nat
  | .seq items => 1 + (items.attach.map fun ⟨x, _⟩ => x.depth).foldl max 0
  | .map entries => 1 + (entries.attach.map fun ⟨(_, x), _⟩ => x.depth).foldl max 0
  | _ => 1
  decreasing_by
    all_goals simp_wf
    · have := List.sizeOf_lt_of_mem ‹_›; omega
    · have := List.sizeOf_lt_of_mem ‹_›; simp at this; omega

/-- The value of a key, with `null` read as absent. -/
def get? (d : Document) (key : String) : Option Document :=
  match d.field? key with
  | some .null => none
  | other => other

/-- Whether a map has a key, `null` valued or not. -/
def has (d : Document) (key : String) : Bool := (d.field? key).isSome

/-- The text of a string. -/
def text? : Document → Option String
  | .str s => some s
  | _ => none

/-- The value of an integer from `0` to `2^64 - 1`. -/
def word? : Document → Option Nat
  | .int v => if 0 ≤ v ∧ v < Nat.pow 2 64 then some v.toNat else none
  | _ => none

/-- The value of an integer from `-2^63` to `2^63 - 1`. -/
def signedWord? : Document → Option Int
  | .int v => if -(Nat.pow 2 63 : Int) ≤ v ∧ v < Nat.pow 2 63 then some v else none
  | _ => none

/-- A map with entries added for the keys it lacks; a key present with `null` keeps its
`null`. Other documents are kept as they are. -/
def withDefaults (d : Document) (entries : List (String × Document)) : Document :=
  match d with
  | .map es => Document.ofEntries (entries.filter (fun (k, _) => !d.has k) ++ es)
  | other => other

end Document

namespace Spec

/-- A reading step; the error is the text of a malformed description. -/
abbrev ReadM := Except String

/-- A text field, `dflt` when absent or `null`. -/
def text (d : Document) (key : String) (dflt : String) : ReadM String :=
  match d.field? key with
  | none | some .null => pure dflt
  | some (.str s) => pure s
  | some _ => throw ("`" ++ key ++ "` must be a string")

/-- An optional text field: `none` when absent or `null`. -/
def optText (d : Document) (key : String) : ReadM (Option String) :=
  match d.field? key with
  | none | some .null => pure none
  | some (.str s) => pure (some s)
  | some _ => throw ("`" ++ key ++ "` must be a string")

/-- A flag: false when absent or `null`. -/
def flag (d : Document) (key : String) : ReadM Bool :=
  match d.field? key with
  | none | some .null => pure false
  | some (.bool b) => pure b
  | some _ => throw ("`" ++ key ++ "` must be a boolean")

/-- A count, `dflt` when absent or `null`. -/
def count (d : Document) (key : String) (dflt : Nat) : ReadM Nat :=
  match d.field? key with
  | none | some .null => pure dflt
  | some x => match x.word? with
    | some n => pure n
    | none => throw ("`" ++ key ++ "` must be a non-negative integer")

/-- A list field, empty when absent or `null`. -/
def array (d : Document) (key : String) : ReadM (List Document) :=
  match d.field? key with
  | none | some .null => pure []
  | some (.seq xs) => pure xs
  | some _ => throw ("`" ++ key ++ "` must be an array")

/-- The items of the list a form's key selects; any other value is malformed. -/
def selectedArray (key : String) : Document → ReadM (List Document)
  | .seq xs => pure xs
  | _ => throw ("`" ++ key ++ "` must be an array")

/-- The low 32 bits of a raw value index. -/
def rawIndex (n : Nat) : Nat := n % Nat.pow 2 32

/-! ## Literals -/

/-- A decimal integer: an optional sign and at least one ASCII digit, nothing else. -/
def decimalInt? (s : String) : Option Int :=
  let (negative, digits) := match s.toList with
    | '-' :: rest => (true, rest)
    | '+' :: rest => (false, rest)
    | cs => (false, cs)
  (digitsValue? digits).map fun n => if negative then -(n : Int) else n

/-- An integer literal of a kind whose values run from `lo` to `hi`; the error names the kind
and shows the value. -/
def intLit (kind : String) (lo hi : Int) (d : Document) : ReadM Int :=
  match d.signedWord? with
  | some v => if lo ≤ v ∧ v ≤ hi then pure v else throw (kind ++ " literal out of range: " ++ d.toJson)
  | none => throw (kind ++ " literal out of range: " ++ d.toJson)

/-- A long literal: a 64-bit signed integer, or its decimal text. -/
def longLit (d : Document) : ReadM Int :=
  match d with
  | .str s => match decimalInt? s with
    | some v => if -(Nat.pow 2 63 : Int) ≤ v ∧ v < Nat.pow 2 63 then pure v else bad
    | none => bad
  | _ => match d.signedWord? with
    | some v => pure v
    | none => bad
where
  bad : ReadM Int := throw ("Long literal out of range: " ++ d.toJson)

/-- A float literal as a double-precision bit pattern: a number, or text such as `NaN`, `inf`,
`-inf` or a decimal. -/
def floatLit : Document → ReadM UInt64
  | .float bits => pure bits
  | .int v => pure (Decimal.Literal.decimal (v < 0) v.natAbs 0).toBinary64.toUInt64
  | .str s => match Decimal.Literal.parse? s with
    | some l => pure l.toBinary64.toUInt64
    | none => throw "bad float string"
  | _ => throw "float literal"

/-- A char literal: a string of one character. -/
def charLit : Document → ReadM Char
  | .str s => match s.toList with
    | [c] => pure c
    | _ => throw "char literal must be one character"
  | _ => throw "char literal"

/-- A string literal. -/
def stringLit : Document → ReadM String
  | .str s => pure s
  | _ => throw "string literal"

/-- A boolean literal. -/
def boolLit : Document → ReadM Bool
  | .bool b => pure b
  | _ => throw "bool literal"

/-- The keys that select an expression form, in the order they are tried. -/
def exprKeys : List String :=
  ["int", "long", "byte", "short", "float", "double", "char", "string", "bool", "null",
   "get", "set", "let", "block", "if", "call", "invoke", "intrinsic", "return", "lambda",
   "local_fun", "composite", "vararg", "inline_new", "mask_bit", "unit"]

/-- The fields a lambda lacks are filled in: it is named `<anonymous>`, has the lambda origin
and local visibility. A field present with `null` is kept, and takes the default of every
declaration. -/
def lambdaDefaults : List (String × Document) :=
  [("name", .str "<anonymous>"), ("origin", .str "lambda"), ("visibility", .str "local")]

/-- A local function without a visibility is local. -/
def localFunctionDefaults : List (String × Document) := [("visibility", .str "local")]

end Spec

end ComposeLowering
