import ComposeLowering.Spec.Field

/-!
# Reading signatures

Requests give linkage signatures as maps of a package, a declaration path, an optional hash
and a mask. The texts follow the field rules of `Spec.Field`; the hash and the mask are 64-bit
naturals written as numbers or as decimal strings.
-/

namespace ComposeLowering

namespace Request

open Spec

/-- A 64-bit natural, written as a number or as a decimal string. -/
def asUInt64 (what : String) : Document → ReadM UInt64
  | .int v =>
    if 0 ≤ v ∧ v < Nat.pow 2 64 then pure v.toNat.toUInt64 else throw (what ++ " out of range")
  | .str s => match parseUInt64? s with
    | some n => pure n
    | none => throw (what ++ " must be a number")
  | other => throw (what ++ " must be a number, not " ++ other.unexpected)

/-- A linkage signature: package and declaration path, an optional hash, and a mask
(zero when absent). -/
def signature (d : Document) : ReadM IdSignature := do
  let package ← text d "package" ""
  let declaration ← text d "declaration" ""
  let id ← (d.get? "id").mapM (asUInt64 "id")
  let mask ← (d.get? "mask").mapM (asUInt64 "mask")
  return { package, declaration, id, mask := mask.getD 0 }

end Request

end ComposeLowering
