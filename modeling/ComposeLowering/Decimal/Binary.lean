/-!
# Binary floating-point formats

A binary interchange format stores a sign bit, a biased exponent field and a fraction field. A
finite nonzero value is `m · 2^q` for a natural mantissa `m` and an integer `q`. This module
reads bit patterns into that form and rounds an exact positive rational to the nearest
representable value, ties to an even mantissa, with values beyond the largest finite one
becoming infinite. Everything is exact arithmetic on naturals.
-/

namespace ComposeLowering

namespace Decimal

/-- A binary format, by the widths of its fraction and exponent fields. -/
structure BinaryFormat where
  fractionBits : Nat
  exponentBits : Nat
  deriving Repr, DecidableEq

namespace BinaryFormat

/-- Single precision: 23 fraction bits, 8 exponent bits. -/
def binary32 : BinaryFormat := ⟨23, 8⟩

/-- Double precision: 52 fraction bits, 11 exponent bits. -/
def binary64 : BinaryFormat := ⟨52, 11⟩

/-- The exponent bias. -/
def bias (f : BinaryFormat) : Nat := Nat.pow 2 (f.exponentBits - 1) - 1

/-- The largest value of the exponent field, which marks infinities and NaNs. -/
def exponentMask (f : BinaryFormat) : Nat := Nat.pow 2 f.exponentBits - 1

/-- The weight `q` of the last mantissa bit of the subnormal numbers. -/
def minExponent (f : BinaryFormat) : Int := 1 - (f.bias : Int) - f.fractionBits

/-- The largest weight `q` of the last mantissa bit of a finite number. -/
def maxExponent (f : BinaryFormat) : Int :=
  (f.exponentMask : Int) - 1 - f.bias - f.fractionBits

/-- The position of the sign bit. -/
def signBit (f : BinaryFormat) : Nat := f.fractionBits + f.exponentBits

/-- The bit pattern of the positive infinity. -/
def infinityBits (f : BinaryFormat) : Nat := f.exponentMask * Nat.pow 2 f.fractionBits

/-- The bit pattern of the quiet NaN with a clear sign. -/
def nanBits (f : BinaryFormat) : Nat := f.infinityBits + Nat.pow 2 (f.fractionBits - 1)

end BinaryFormat

/-- What a bit pattern denotes. A finite nonzero value is `mant · 2^exp`; `lowerTight` marks
the smallest mantissa of a binade above the first, whose lower neighbour is half as far away
as its upper one. -/
inductive Decoded where
  | nan
  | infinity (negative : Bool)
  | zero (negative : Bool)
  | finite (negative : Bool) (mant : Nat) (exp : Int) (lowerTight : Bool)
  deriving Repr, DecidableEq

namespace BinaryFormat

/-- Reads a bit pattern of the format. -/
def decode (f : BinaryFormat) (bits : Nat) : Decoded :=
  let negative := bits / Nat.pow 2 f.signBit % 2 = 1
  let e := bits / Nat.pow 2 f.fractionBits % Nat.pow 2 f.exponentBits
  let frac := bits % Nat.pow 2 f.fractionBits
  if e = f.exponentMask then
    if frac = 0 then .infinity negative else .nan
  else if e = 0 then
    if frac = 0 then .zero negative else .finite negative frac f.minExponent false
  else
    .finite negative (frac + Nat.pow 2 f.fractionBits) ((e : Int) - f.bias - f.fractionBits)
      (frac = 0 && e > 1)

/-- The bit pattern of `±mant · 2^exp` for a mantissa already in range: below `2^fractionBits`
only with the subnormal weight. -/
def encode (f : BinaryFormat) (negative : Bool) (mant : Nat) (exp : Int) : Nat :=
  let sign := if negative then Nat.pow 2 f.signBit else 0
  if mant < Nat.pow 2 f.fractionBits then sign + mant
  else sign + (exp - f.minExponent + 1).toNat * Nat.pow 2 f.fractionBits + (mant - Nat.pow 2 f.fractionBits)

/-- `⌊log₂ (num / den)⌋` for positive `num` and `den`. -/
def floorLog2 (num den : Nat) : Int :=
  let e₀ : Int := (Nat.log2 num : Int) - Nat.log2 den
  if num * Nat.pow 2 (-e₀).toNat ≥ den * Nat.pow 2 e₀.toNat then e₀ else e₀ - 1

/-- Rounds `num / den` to a natural, ties to even. -/
def roundHalfEven (num den : Nat) : Nat :=
  let q := num / den
  let r := num % den
  if 2 * r > den then q + 1
  else if 2 * r = den ∧ q % 2 = 1 then q + 1
  else q

/-- The bit pattern of the value of the format nearest to `±num / den`, ties to an even
mantissa; a value too large for the format becomes infinite. -/
def round (f : BinaryFormat) (negative : Bool) (num den : Nat) : Nat :=
  let sign := if negative then Nat.pow 2 f.signBit else 0
  if num = 0 ∨ den = 0 then sign
  else
    let q₀ := max (floorLog2 num den - f.fractionBits) f.minExponent
    let m₀ := roundHalfEven (num * Nat.pow 2 (-q₀).toNat) (den * Nat.pow 2 q₀.toNat)
    let (m, q) := if m₀ = Nat.pow 2 (f.fractionBits + 1) then (m₀ / 2, q₀ + 1) else (m₀, q₀)
    if q > f.maxExponent then sign + f.infinityBits
    else f.encode negative m q

end BinaryFormat

end Decimal

end ComposeLowering
