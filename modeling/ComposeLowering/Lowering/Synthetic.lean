import ComposeLowering.Ir.Decl
import ComposeLowering.Fault

/-!
# Synthetic parameters

A composable declaration receives, after its real parameters, a composer, one or more *change
words* and, when some parameter has a default, one or more *default masks*. Each word is a
32-bit integer. The change words hold one bit per real parameter, per receiver and one extra bit,
so `real + receivers + 1` bits; the default masks hold one bit per real parameter. A count of
bits becomes a count of words by rounding up to a multiple of 32.

Counts are machine words: the bit count `real + receivers + 1` must stay below `2^64`, and a mask
word packs at most 32 flags.
-/

namespace ComposeLowering

namespace Synthetic

/-- Bits per change word or default mask. -/
def bitsPerWord : Nat := 32

/-- The words needed for `bits` bits. -/
def words (bits : Nat) : Nat := (bits + bitsPerWord - 1) / bitsPerWord

/-- Change words for `real` parameters and `receivers` receivers. -/
def changedWordCount (real receivers : Nat) : Nat := words (real + receivers + 1)

/-- Default masks for `real` parameters. -/
def defaultWordCount (real : Nat) : Nat := words real

end Synthetic

/-- One appended parameter: the composer, the `i`-th change word or the `i`-th default mask. -/
inductive SyntheticParam where
  | composer
  | changed (i : Nat)
  | default (i : Nat)
  deriving DecidableEq, Repr, Inhabited

namespace SyntheticParam

/-- The name of the composer parameter. -/
def composerName : String := "$composer"

/-- The parameter's name: `$composer`, `$changed`, `$changed1`, …, `$default`, `$default1`, …;
the first word of each kind has no number. -/
def name : SyntheticParam → String
  | .composer => composerName
  | .changed 0 => "$changed"
  | .changed i => "$changed" ++ toString i
  | .default 0 => "$default"
  | .default i => "$default" ++ toString i

/-- The parameter origin that marks it. -/
def origin : SyntheticParam → ParamOrigin
  | .composer => .composer
  | .changed _ => .changed
  | .default _ => .defaultMask

end SyntheticParam

namespace Synthetic

/-- The appended parameters in order: the composer, the change words, then the default masks
if `hasDefaults`. -/
def params (real receivers : Nat) (hasDefaults : Bool) : List SyntheticParam :=
  .composer :: (List.range (changedWordCount real receivers)).map .changed ++
    (if hasDefaults then (List.range (defaultWordCount real)).map .default else [])

/-- The number of appended parameters. -/
def paramCount (real receivers : Nat) (hasDefaults : Bool) : Nat :=
  1 + changedWordCount real receivers + (if hasDefaults then defaultWordCount real else 0)

theorem length_params (real receivers : Nat) (hasDefaults : Bool) :
    (params real receivers hasDefaults).length = paramCount real receivers hasDefaults := by
  unfold params paramCount
  cases hasDefaults <;> simp <;> omega

/-- The largest count of bits a machine word holds, plus one. -/
def wordLimit : Nat := Nat.pow 2 64

/-- The word counts as machine arithmetic computes them: a fault when the bit count
`real + receivers + 1` reaches `2^64`. -/
def checkedChangedWordCount (real receivers : Nat) : Except Fault Nat :=
  if real + receivers + 1 ≥ wordLimit then .error .addOverflow
  else .ok (changedWordCount real receivers)

/-- A sum of two machine words: a fault when it reaches `2^64`. -/
def checkedAdd (a b : Nat) : Except Fault Nat :=
  if a + b ≥ wordLimit then .error .addOverflow else .ok (a + b)

/-- The number of appended parameters as machine arithmetic computes it: the change words, then
the composer and the default masks added to them, each sum checked. -/
def checkedParamCount (real receivers : Nat) (hasDefaults : Bool) : Except Fault Nat := do
  let changed ← checkedChangedWordCount real receivers
  let head ← checkedAdd 1 changed
  checkedAdd head (if hasDefaults then defaultWordCount real else 0)

/-- The argument slots of a composable `invoke` of `arity` arguments: the arguments and the
synthetic parameters of a function value, as machine arithmetic computes them, with a fault
when `arity + 1` or the total reaches `2^64`. -/
def checkedInvokeSlots (arity : Nat) : Except Fault Nat :=
  if arity + 1 ≥ wordLimit then .error .addOverflow
  else if arity + paramCount arity 0 false ≥ wordLimit then .error .addOverflow
  else .ok (arity + paramCount arity 0 false)

/-- The most argument slots one call can reserve, as many as any list of expressions. -/
def maxCallSlots : Nat := Expr.maxListLength

/-- The word packing the flags: bit `i` is set exactly when flag `i` is. -/
def packFlags (bits : List Bool) : UInt32 :=
  (bits.zipIdx.filter (·.1)).foldl (fun acc (_, i) => acc ||| ((1 : UInt32) <<< i.toUInt32)) 0

/-- The mask word of at most 32 flags, as a signed 32-bit integer; more flags are a fault. -/
def bitMask (bits : List Bool) : Except Fault Int32 :=
  if bits.length > bitsPerWord then .error .maskTooWide
  else .ok (packFlags bits).toInt32

end Synthetic

end ComposeLowering
