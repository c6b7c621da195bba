import ComposeLowering.Decimal.Binary

/-!
# Decimal literals

A float literal is a signed decimal `digits · 10^exp` or one of the special values. Its value in
a binary format is the nearest representable value, ties to even. A single-precision constant
is read at double precision first and then narrowed, so it rounds twice, as a cast from a double
does.

Text is read with an optional sign, then `inf`, `infinity` or `nan` in any letter case, or
digits with an optional point and an optional exponent `e`/`E` with its own optional sign; at
least one digit must stand before or after the point.
-/

namespace ComposeLowering

namespace Decimal

/-- A number as written in a literal. -/
inductive Literal where
  | nan (negative : Bool)
  | infinity (negative : Bool)
  | decimal (negative : Bool) (digits : Nat) (exp : Int)
  deriving Repr, DecidableEq

namespace BinaryFormat

/-- The bit pattern of `±digits · 10^exp` rounded to the format. Magnitudes far outside the
format are settled without computing their powers: every value at or above `10^310` is
infinite in both formats, every one below `10^-330` rounds to zero. -/
def ofDecimal (f : BinaryFormat) (negative : Bool) (digits : Nat) (exp : Int) : Nat :=
  let size := exp + (Nat.toDigits 10 digits).length
  if digits = 0 ∨ size < -330 then f.round negative 0 1
  else if size > 310 then (if negative then Nat.pow 2 f.signBit else 0) + f.infinityBits
  else f.round negative (digits * Nat.pow 10 exp.toNat) (Nat.pow 10 (-exp).toNat)

/-- Converts a bit pattern of format `src` to the nearest value of format `dst`. -/
def convert (src dst : BinaryFormat) (bits : Nat) : Nat :=
  match src.decode bits with
  | .nan => dst.nanBits
  | .infinity neg => (if neg then Nat.pow 2 dst.signBit else 0) + dst.infinityBits
  | .zero neg => if neg then Nat.pow 2 dst.signBit else 0
  | .finite neg m q _ => dst.round neg (m * Nat.pow 2 q.toNat) (Nat.pow 2 (-q).toNat)

end BinaryFormat

namespace Literal

/-- The double-precision bit pattern of a literal. -/
def toBinary64 : Literal → Nat
  | .nan neg => (if neg then Nat.pow 2 BinaryFormat.binary64.signBit else 0) + BinaryFormat.binary64.nanBits
  | .infinity neg =>
    (if neg then Nat.pow 2 BinaryFormat.binary64.signBit else 0) + BinaryFormat.binary64.infinityBits
  | .decimal neg d e => BinaryFormat.binary64.ofDecimal neg d e

/-- The single-precision bit pattern of a literal, read at double precision and narrowed. -/
def toBinary32 (l : Literal) : Nat :=
  BinaryFormat.convert .binary64 .binary32 l.toBinary64

/-- Digits at the front of a character list, with their value and count. -/
def takeDigits : List Char → Nat × Nat × List Char
  | c :: rest =>
    if c.isDigit then
      let (v, n, r) := takeDigits rest
      -- the digits after `c` are worth `v`, and `c` stands `n` places before the end
      ((c.toNat - '0'.toNat) * Nat.pow 10 n + v, n + 1, r)
    else (0, 0, c :: rest)
  | [] => (0, 0, [])

/-- Splits off a leading sign. -/
def takeSign : List Char → Bool × List Char
  | '-' :: r => (true, r)
  | '+' :: r => (false, r)
  | cs => (false, cs)

/-- Reads the digits, point and exponent of an unsigned decimal. -/
def parseDecimal (negative : Bool) (cs : List Char) : Option Literal :=
  let (whole, nWhole, r₁) := takeDigits cs
  let (frac, nFrac, r₂) : Nat × Nat × List Char := match r₁ with
    | '.' :: r => takeDigits r
    | r => (0, 0, r)
  if nWhole + nFrac = 0 then none
  else
    let digits := whole * Nat.pow 10 nFrac + frac
    match r₂ with
    | [] => some (.decimal negative digits (-(nFrac : Int)))
    | e :: r₃ =>
      if e = 'e' ∨ e = 'E' then
        let (eNeg, r₄) := takeSign r₃
        let (ev, nE, r₅) := takeDigits r₄
        if nE = 0 ∨ !r₅.isEmpty then none
        else
          let exp : Int := if eNeg then -(ev : Int) else ev
          some (.decimal negative digits (exp - nFrac))
      else none

/-- Reads a literal from text. -/
def parse? (s : String) : Option Literal :=
  let (negative, rest) := takeSign s.toList
  let lower := String.ofList (rest.map Char.toLower)
  if lower = "inf" ∨ lower = "infinity" then some (.infinity negative)
  else if lower = "nan" then some (.nan negative)
  else parseDecimal negative rest

end Literal

end Decimal

end ComposeLowering
