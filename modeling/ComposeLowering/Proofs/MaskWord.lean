import Mathlib
import ComposeLowering.Lowering.Synthetic

/-!
# Mask words

`Synthetic.bitMask` packs at most 32 flags into one word, flag `i` at bit `i`, and hands the word
on as a signed 32-bit integer. This module says what that word is, for every list of flags
(`bitMask_packsFlags`):

* read back as an unsigned word, it is the number whose binary digits are the flags,
  `∑ 2^i` over the set flags (`toNat_packFlags`);
* the sign bit is flag 31, so the mask is negative exactly for 32 flags with the last one set;
* more than 32 flags break the word-width assertion.

The packing sets one bit per set flag, in increasing order, so every bit it sets is above the
bits set before: each `|||` is an addition (`toNat_setBit`), and the fold adds up the flag values
(`toNat_foldl_setBits`).
-/

namespace ComposeLowering

namespace Synthetic

/-! ## The value of a list of flags -/

/-- The number whose binary digits are the flags, flag `i` worth `2^i`. -/
def flagValue (bits : List Bool) : Nat :=
  ∑ i ∈ Finset.range bits.length with bits[i]? = some true, 2 ^ i

theorem flagValue_nil : flagValue [] = 0 := rfl

/-- The first flag is the lowest digit. -/
theorem flagValue_cons (b : Bool) (bits : List Bool) :
    flagValue (b :: bits) = (if b then 1 else 0) + 2 * flagValue bits := by
  rw [flagValue, flagValue, Finset.sum_filter, Finset.sum_filter, List.length_cons,
    Finset.sum_range_succ', Finset.mul_sum, add_comm]
  congr 1
  · cases b <;> simp
  · refine Finset.sum_congr rfl fun i _ => ?_
    simp only [List.getElem?_cons_succ, pow_succ]
    split <;> ring

/-- The last flag is the highest digit. -/
theorem flagValue_append_singleton (bits : List Bool) (b : Bool) :
    flagValue (bits ++ [b]) = flagValue bits + if b then 2 ^ bits.length else 0 := by
  induction bits with
  | nil => simp [flagValue_cons, flagValue_nil]
  | cons a bits ih =>
    rw [List.cons_append, flagValue_cons, flagValue_cons, ih, List.length_cons, pow_succ]
    split <;> split <;> ring

/-- `n` flags are worth less than `2^n`. -/
theorem flagValue_lt (bits : List Bool) : flagValue bits < 2 ^ bits.length := by
  induction bits with
  | nil => simp [flagValue_nil]
  | cons b bits ih =>
    rw [flagValue_cons, List.length_cons, pow_succ]
    split <;> omega

/-- At most 32 flags are worth `2^31` or more exactly when there are 32 and the last is set. -/
theorem two_pow_le_flagValue_iff {bits : List Bool} (h : bits.length ≤ 32) :
    2 ^ 31 ≤ flagValue bits ↔ bits.length = 32 ∧ bits[31]? = some true := by
  by_cases hlen : bits.length = 32
  · -- the first 31 flags are worth less than `2^31`
    obtain ⟨xs, b, rfl⟩ := (List.eq_nil_or_concat bits).resolve_left fun h => by simp [h] at hlen
    have hxs : xs.length = 31 := by simpa using hlen
    have hlt := flagValue_lt xs
    rw [List.concat_eq_append, flagValue_append_singleton, hxs]
    rw [hxs] at hlt
    cases b with
    | false => simp [hxs]; omega
    | true => simp [hxs]
  · have hlt := flagValue_lt bits
    have hle : 2 ^ bits.length ≤ 2 ^ 31 := Nat.pow_le_pow_right (by norm_num) (by omega)
    simp only [hlen, false_and, iff_false]
    omega

/-! ## Packing -/

/-- Setting bit `i` of a word whose set bits are all below `i` adds `2^i`. -/
theorem toNat_setBit (acc : UInt32) {i : Nat} (hi : i < 32) (hacc : acc.toNat < 2 ^ i) :
    (acc ||| ((1 : UInt32) <<< i.toUInt32)).toNat = acc.toNat + 2 ^ i := by
  have hshift : ((1 : UInt32) <<< i.toUInt32).toNat = 2 ^ i := by
    simp [UInt32.toNat_shiftLeft, Nat.mod_eq_of_lt hi, Nat.shiftLeft_eq]
    exact Nat.pow_lt_pow_right (by norm_num) hi
  rw [UInt32.toNat_or, hshift, Nat.or_two_pow_eq_add_of_lt hacc]

/-- Setting the bits of the set flags, numbered from `k`, in a word whose set bits are all
below `k`, adds the value of the flags shifted by `k`. -/
theorem toNat_foldl_setBits : ∀ (bits : List Bool) (k : Nat) (acc : UInt32),
    acc.toNat < 2 ^ k → k + bits.length ≤ 32 →
    (((bits.zipIdx k).filter (·.1)).foldl
      (fun acc (_, i) => acc ||| ((1 : UInt32) <<< i.toUInt32)) acc).toNat =
      acc.toNat + 2 ^ k * flagValue bits
  | [], k, acc, _, _ => by simp [flagValue_nil]
  | b :: bits, k, acc, hacc, hk => by
    simp only [List.length_cons] at hk
    rw [List.zipIdx_cons, List.filter_cons, flagValue_cons]
    cases b with
    | false =>
      have hacc' : acc.toNat < 2 ^ (k + 1) :=
        Nat.lt_of_lt_of_le hacc (Nat.pow_le_pow_right (by norm_num) (Nat.le_succ k))
      simp only [Bool.false_eq_true, if_false]
      rw [toNat_foldl_setBits bits (k + 1) acc hacc' (by omega), pow_succ]
      ring
    | true =>
      -- bit `k` is set, and every later bit is above it
      have hset := toNat_setBit acc (i := k) (by omega) hacc
      simp only [if_true, List.foldl_cons]
      rw [toNat_foldl_setBits bits (k + 1) _ (by rw [hset, pow_succ]; omega) (by omega), hset,
        pow_succ]
      ring

/-- The packed word of at most 32 flags is their value. -/
theorem toNat_packFlags {bits : List Bool} (h : bits.length ≤ 32) :
    (packFlags bits).toNat = flagValue bits := by
  have hfold := toNat_foldl_setBits bits 0 0 (by decide) (by omega)
  simpa [packFlags] using hfold

/-- A word read as a signed integer is negative exactly when its top bit is set. -/
theorem toInt32_lt_zero_iff (w : UInt32) : w.toInt32 < 0 ↔ 2 ^ 31 ≤ w.toNat := by
  rw [Int32.lt_iff_toInt_lt, Int32.toInt_zero]
  show BitVec.toInt w.toBitVec < 0 ↔ _
  rw [BitVec.toInt_neg_iff, UInt32.toNat_toBitVec]
  omega

theorem bitMask_of_le {bits : List Bool} (h : bits.length ≤ bitsPerWord) :
    bitMask bits = .ok (packFlags bits).toInt32 := by
  simp [bitMask, Nat.not_lt.2 h]

theorem bitMask_of_lt {bits : List Bool} (h : bitsPerWord < bits.length) :
    bitMask bits = .error .maskTooWide := by
  simp [bitMask, h]

/-- **The mask word packs its flags exactly.** For at most 32 flags the mask, read as an
unsigned word, is the sum of `2^i` over the set flags `i`, and it is negative exactly when there
are 32 flags and the last is set; more flags break the word-width assertion. -/
theorem bitMask_packsFlags (bits : List Bool) :
    (bits.length ≤ bitsPerWord → ∃ r, bitMask bits = .ok r ∧
      r.toUInt32.toNat = ∑ i ∈ Finset.range bits.length with bits[i]? = some true, 2 ^ i ∧
      (r < 0 ↔ bits.length = 32 ∧ bits[31]? = some true)) ∧
    (bitsPerWord < bits.length → bitMask bits = .error .maskTooWide) := by
  refine ⟨fun h => ⟨_, bitMask_of_le h, ?_, ?_⟩, bitMask_of_lt⟩
  · rw [UInt32.toUInt32_toInt32, toNat_packFlags h]
    rfl
  · rw [toInt32_lt_zero_iff, toNat_packFlags h]
    exact two_pow_le_flagValue_iff h

/-- Flag 31 alone gives the least signed word. -/
theorem signFlag_mask_negative :
    (List.replicate 31 false ++ [true]).length ≤ bitsPerWord ∧
      ∃ r, bitMask (List.replicate 31 false ++ [true]) = .ok r ∧
        r.toUInt32.toNat = ∑ i ∈ Finset.range (List.replicate 31 false ++ [true]).length
          with (List.replicate 31 false ++ [true])[i]? = some true, 2 ^ i ∧
        (r < 0 ↔ (List.replicate 31 false ++ [true]).length = 32 ∧
          (List.replicate 31 false ++ [true])[31]? = some true) :=
  ⟨by decide, (bitMask_packsFlags _).1 (by decide)⟩

end Synthetic

end ComposeLowering
