/-!
# Linkage signatures

A declaration is linked across compilation units by its signature: the package, the dotted
path of enclosing classes and the name, a 64-bit hash of its mangled form (absent when
unknown) and a mask of flags. A signature travels as four text parts; the hash part is `null`
when absent. Reading the parts back needs exactly four of them and a mask that is a decimal
64-bit natural; a hash part that is not one reads as an absent hash.

Decimal 64-bit naturals are read as unsigned integer literals: an optional `+`, then one or
more ASCII digits, with a value below `2^64`.
-/

namespace ComposeLowering

/-- A linkage signature. -/
structure IdSignature where
  package : String
  declaration : String
  id : Option UInt64
  mask : UInt64
  deriving DecidableEq, Repr, Inhabited, Hashable

/-- The flag of the mask that marks an `expect` declaration. -/
def IdSignature.maskExpect : UInt64 := 1

/-- The value of a string of ASCII digits, if it is one. -/
def digitsValue? : List Char → Option Nat
  | [] => none
  | cs => if cs.all Char.isDigit then
      some (cs.foldl (fun acc c => acc * 10 + (c.toNat - '0'.toNat)) 0)
    else none

/-- Reads a decimal 64-bit natural: an optional `+` and at least one digit, below `2^64`. -/
def parseUInt64? (s : String) : Option UInt64 :=
  let cs := match s.toList with
    | '+' :: rest => rest
    | cs => cs
  match digitsValue? cs with
  | some n => if n < Nat.pow 2 64 then some n.toUInt64 else none
  | none => none

namespace IdSignature

/-- The four parts: package, declaration path, hash or `null`, mask. -/
def toParts (s : IdSignature) : List String :=
  [s.package, s.declaration, (s.id.map toString).getD "null", toString s.mask]

/-- Reads four parts back; `none` unless there are four and the mask reads. -/
def ofParts? : List String → Option IdSignature
  | [p, d, i, m] => (parseUInt64? m).map fun mask => ⟨p, d, parseUInt64? i, mask⟩
  | _ => none

end IdSignature

end ComposeLowering
