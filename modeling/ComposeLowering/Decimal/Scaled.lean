import ComposeLowering.Decimal.Literal

/-!
# Decimals scaled in double precision

A quick way to read a decimal `s · 10^e` as a double converts the integer `s` to a double and
then multiplies or divides by the double nearest to `10^|e|`, rounding after each operation.
Two roundings can land one unit away from the nearest double, so the result is not always the
correctly rounded value of the decimal; this module computes exactly what that procedure gives.

Each operation is exact rational arithmetic followed by one rounding to nearest, ties to even.
Powers of ten are taken from `10^0` up to `10^308`; a larger negative exponent is reduced by
dividing by `10^308` until it fits or the value reaches zero, and a positive one that does not
fit, or that makes the value infinite, is out of range.
-/

namespace ComposeLowering

namespace Decimal

namespace BinaryFormat

/-- The exact value of a finite bit pattern as a sign and a fraction `num / den`; zero for a
zero pattern. Infinities and NaNs are not finite and give `none`. -/
def fraction? (f : BinaryFormat) (bits : Nat) : Option (Bool × Nat × Nat) :=
  match f.decode bits with
  | .finite neg m q _ => some (neg, m * Nat.pow 2 q.toNat, Nat.pow 2 (-q).toNat)
  | .zero neg => some (neg, 0, 1)
  | _ => none

/-- The pattern of the nearest value to a natural number. -/
def ofNat (f : BinaryFormat) (n : Nat) : Nat := f.round false n 1

/-- The product of two finite patterns, rounded; a NaN when an operand is not finite. -/
def mul (f : BinaryFormat) (a b : Nat) : Nat :=
  match f.fraction? a, f.fraction? b with
  | some (na, pa, qa), some (nb, pb, qb) => f.round (na != nb) (pa * pb) (qa * qb)
  | _, _ => f.nanBits

/-- The quotient of two finite patterns, the divisor nonzero, rounded; a NaN otherwise. -/
def div (f : BinaryFormat) (a b : Nat) : Nat :=
  match f.fraction? a, f.fraction? b with
  | some (na, pa, qa), some (nb, pb, qb) =>
    if pb = 0 then f.nanBits else f.round (na != nb) (pa * qb) (qa * pb)
  | _, _ => f.nanBits

/-- The pattern with the sign bit flipped. -/
def negate (f : BinaryFormat) (bits : Nat) : Nat :=
  if bits / Nat.pow 2 f.signBit % 2 = 1 then bits - Nat.pow 2 f.signBit else bits + Nat.pow 2 f.signBit

/-- Whether a pattern is an infinity. -/
def isInfinite (f : BinaryFormat) (bits : Nat) : Bool :=
  match f.decode bits with
  | .infinity _ => true
  | _ => false

/-- Whether a pattern is a zero of either sign. -/
def isZero (f : BinaryFormat) (bits : Nat) : Bool :=
  match f.decode bits with
  | .zero _ => true
  | _ => false

end BinaryFormat

/-- The largest power of ten that scales a decimal in one step. -/
def maxScale : Nat := 308

/-- The double nearest to `10^k`. -/
def powerOfTen (k : Nat) : Nat := BinaryFormat.binary64.ofNat (Nat.pow 10 k)

/-- Scales the double `x` by `10^e`, as the quick reading does: `none` when the result is out
of range. At most `fuel` reductions by `10^308` are made; each one either brings the exponent
into range or leaves a value that the next one sends to zero, so a few suffice. -/
def scale (x : Nat) (e : Int) : (fuel : Nat) → Option Nat
  | 0 => some x
  | fuel + 1 =>
    if e.natAbs ≤ maxScale then
      if e ≥ 0 then
        let y := BinaryFormat.binary64.mul x (powerOfTen e.natAbs)
        if BinaryFormat.binary64.isInfinite y then none else some y
      else some (BinaryFormat.binary64.div x (powerOfTen e.natAbs))
    else if BinaryFormat.binary64.isZero x then some x
    else if e ≥ 0 then none
    else scale (BinaryFormat.binary64.div x (powerOfTen maxScale)) (e + maxScale) fuel

/-- The double that the quick reading gives for `±significand · 10^exponent`: the significand
converted, then scaled; `none` when the value is out of range. -/
def scaledDecimal (negative : Bool) (significand : Nat) (exponent : Int) : Option Nat :=
  (scale (BinaryFormat.binary64.ofNat significand) exponent 4).map fun x =>
    if negative then BinaryFormat.binary64.negate x else x

end Decimal

end ComposeLowering
