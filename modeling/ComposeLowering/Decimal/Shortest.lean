import ComposeLowering.Decimal.Binary

/-!
# Shortest decimal digits

Every finite nonzero binary value `m · 2^q` is the nearest value of its format to each real
number in its *rounding interval*: from the midpoint to the lower neighbour to the midpoint to
the upper neighbour, both ends included exactly when `m` is even (a tie goes to the even
mantissa). The shortest decimal of the value is the decimal with the fewest significant digits
inside that interval; of two such decimals the nearer one to the value is taken. Two at the same
distance are settled by a rule of the caller's: the one with an even last digit, or the one of
larger magnitude (rounding half up).

The search tries one significant digit, then two, and so on. For a count `n` the decimals of
`n` digits around the value are the multiples of `10^k` with `k = ⌊log₁₀ v⌋ - n + 1`; when
some multiple lies in the interval, so does one of the two multiples next to `v`, so only those
two are tested. All comparisons are exact on naturals: interval ends are counted in units of
`2^(q-2)` so that they are whole.
-/

namespace ComposeLowering

namespace Decimal

/-- A decimal `digits · 10^exp` with no trailing zero in `digits`. -/
structure Scientific where
  digits : Nat
  exp : Int
  deriving Repr, DecidableEq

/-- Whether `a · 10^k ≤ b · 2^e` (or `<` when `strict`), compared on naturals. -/
def decLeBin (strict : Bool) (a : Nat) (k : Int) (b : Nat) (e : Int) : Bool :=
  let lhs := a * Nat.pow 10 k.toNat * Nat.pow 2 (-e).toNat
  let rhs := b * Nat.pow 2 e.toNat * Nat.pow 10 (-k).toNat
  if strict then lhs < rhs else lhs ≤ rhs

/-- Whether `b · 2^e ≤ a · 10^k` (or `<` when `strict`), compared on naturals. -/
def binLeDec (strict : Bool) (b : Nat) (e : Int) (a : Nat) (k : Int) : Bool :=
  let lhs := b * Nat.pow 2 e.toNat * Nat.pow 10 (-k).toNat
  let rhs := a * Nat.pow 10 k.toNat * Nat.pow 2 (-e).toNat
  if strict then lhs < rhs else lhs ≤ rhs

/-- The number of decimal digits of a natural, counting one for zero. -/
def digitCount (n : Nat) : Nat := (Nat.toDigits 10 n).length

/-- `⌊log₁₀ (num / den)⌋` for positive `num` and `den`. -/
def floorLog10 (num den : Nat) : Int :=
  let e₀ : Int := (digitCount num : Int) - digitCount den
  if num * Nat.pow 10 (-e₀).toNat ≥ den * Nat.pow 10 e₀.toNat then e₀ else e₀ - 1

/-- Removes trailing zeros, raising the exponent to match. -/
def Scientific.normalize (digits : Nat) (exp : Int) : (fuel : Nat) → Scientific
  | 0 => ⟨digits, exp⟩
  | fuel + 1 =>
    if digits ≠ 0 ∧ digits % 10 = 0 then normalize (digits / 10) (exp + 1) fuel
    else ⟨digits, exp⟩

/-- The rounding interval of `m · 2^q`, in units of `2^(q-2)`: the value is `4m`, and the
ends are `4m - 2` (or `4m - 1` for a tight lower side) and `4m + 2`. -/
structure Interval where
  low : Nat
  value : Nat
  high : Nat
  unit : Int
  inclusive : Bool

/-- The rounding interval of a finite nonzero value. -/
def Interval.ofFinite (m : Nat) (q : Int) (lowerTight : Bool) : Interval where
  low := 4 * m - (if lowerTight then 1 else 2)
  value := 4 * m
  high := 4 * m + 2
  unit := q - 2
  inclusive := m % 2 = 0

/-- Whether `c · 10^k` lies in the interval. -/
def Interval.contains (iv : Interval) (c : Nat) (k : Int) : Bool :=
  binLeDec (!iv.inclusive) iv.low iv.unit c k && decLeBin (!iv.inclusive) c k iv.high iv.unit

/-- How a tie between the two nearest candidates is settled. -/
inductive TieRule where
  /-- The candidate with an even last digit. -/
  | even
  /-- The candidate of larger magnitude. -/
  | up
  deriving DecidableEq, Repr

/-- The multiple of `10^k` to take with `n` digits, if either neighbour of the value lies in
the interval. -/
def Interval.pick (tie : TieRule) (iv : Interval) (k : Int) : Option Nat :=
  -- the value is `num / den` multiples of `10^k`
  let num := iv.value * Nat.pow 2 iv.unit.toNat * Nat.pow 10 (-k).toNat
  let den := Nat.pow 2 (-iv.unit).toNat * Nat.pow 10 k.toNat
  let lo := num / den
  let hi := if num % den = 0 then lo else lo + 1
  match iv.contains lo k, iv.contains hi k with
  | true, true =>
    -- both in range: the nearer, and on a tie as the rule says
    let dLo := num - lo * den
    let dHi := hi * den - num
    if dLo < dHi then some lo
    else if dHi < dLo then some hi
    else match tie with
      | .even => if lo % 2 = 0 then some lo else some hi
      | .up => some hi
  | true, false => some lo
  | false, true => some hi
  | false, false => none

/-- Tries digit counts `n, n+1, …` while fuel lasts. -/
def Interval.search (tie : TieRule) (iv : Interval) (e : Int) (n : Nat) : (fuel : Nat) → Scientific
  | 0 => ⟨iv.value, iv.unit⟩
  | fuel + 1 =>
    let k := e - n + 1
    match iv.pick tie k with
    | some c => Scientific.normalize c k (n + 1)
    | none => iv.search tie e (n + 1) fuel

/-- The shortest decimal that reads back as `m · 2^q` (for `m > 0`), nearest of those to the
value, a tie between two nearest ones settled by `tie`. -/
def shortest (tie : TieRule) (m : Nat) (q : Int) (lowerTight : Bool) : Scientific :=
  let iv := Interval.ofFinite m q lowerTight
  let e := floorLog10 (m * Nat.pow 2 q.toNat) (Nat.pow 2 (-q).toNat)
  iv.search tie e 1 40

end Decimal

end ComposeLowering
