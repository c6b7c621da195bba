import ComposeLowering.Decimal.Shortest

/-!
# Written floats

A float constant is written with its shortest decimal digits. The layout is positional while
the decimal exponent stays in a window, and scientific outside it; positional text always has a
digit after the point, and scientific text may sign its exponent either way. A negative value,
zero included, carries a minus sign; NaN has no sign.
-/

namespace ComposeLowering

namespace Decimal

/-- The layout decisions of a written float. -/
structure Notation where
  /-- The least decimal exponent written positionally. -/
  positionalLow : Int
  /-- The greatest decimal exponent written positionally. -/
  positionalHigh : Int
  nanText : String
  infinityText : String
  /-- Whether a nonnegative exponent of scientific text carries a plus sign. -/
  plusExponent : Bool
  /-- How a tie between two nearest shortest decimals is settled. -/
  tie : TieRule

/-- Constants are positional for exponents from -4 to 15 (so from `0.0001` up to below
`10^16`), `NaN` and `inf` for the special values; exponents are unsigned when nonnegative, and
ties round half up. -/
def Notation.constant : Notation := ⟨-4, 15, "NaN", "inf", false, .up⟩

/-- `n` zeros. -/
def zeros (n : Nat) : String := String.ofList (List.replicate n '0')

/-- Positional text of `0.d₁d₂… · 10^(s+1)`, with at least one digit after the point. -/
def positional (ds : List Char) (s : Int) : String :=
  if s < 0 then "0." ++ zeros ((-s).toNat - 1) ++ String.ofList ds
  else
    let whole := s.toNat + 1
    if whole < ds.length then
      String.ofList (ds.take whole) ++ "." ++ String.ofList (ds.drop whole)
    else String.ofList ds ++ zeros (whole - ds.length) ++ ".0"

/-- Scientific text `d₁.d₂…e s`, with no point for a single digit, and a plus sign before a
nonnegative exponent when `plus`. -/
def scientific (plus : Bool) (ds : List Char) (s : Int) : String :=
  let exp := (if plus && s ≥ 0 then "+" else "") ++ toString s
  match ds with
  | [] => "0e" ++ exp
  | [d] => String.singleton d ++ "e" ++ exp
  | d :: rest => String.singleton d ++ "." ++ String.ofList rest ++ "e" ++ exp

/-- Writes the value of a bit pattern of format `f`. -/
def Notation.write (n : Notation) (f : BinaryFormat) (bits : Nat) : String :=
  match f.decode bits with
  | .nan => n.nanText
  | .infinity neg => (if neg then "-" else "") ++ n.infinityText
  | .zero neg => (if neg then "-" else "") ++ "0.0"
  | .finite neg m q tight =>
    let d := shortest n.tie m q tight
    let ds := Nat.toDigits 10 d.digits
    let s := d.exp + ds.length - 1
    let body :=
      if n.positionalLow ≤ s ∧ s ≤ n.positionalHigh then positional ds s
      else scientific n.plusExponent ds s
    (if neg then "-" else "") ++ body

end Decimal

end ComposeLowering
