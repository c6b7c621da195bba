import Mathlib
import ComposeLowering.Link.Signature

/-!
# Decimal numerals

Naturals are written in decimal by `Nat.toDigits 10`, with no leading zero, and read back from
ASCII digits by `digitsValue?`. Reading accepts exactly the written numerals with any number of
zeros in front (`digitsValue?_eq_some_iff`); in particular it undoes writing, so writing is
injective (`toString_injective`).
-/

namespace ComposeLowering

/-! ## Digits -/

theorem digit_bounds {c : Char} (h : c.isDigit) : 48 ≤ c.toNat ∧ c.toNat ≤ 57 := by
  simp only [Char.isDigit, Bool.and_eq_true, decide_eq_true_eq, UInt32.le_iff_toNat_le] at h
  exact h

/-- The value of a digit is below ten. -/
theorem digitValue_lt {c : Char} (h : c.isDigit) : c.toNat - '0'.toNat < 10 := by
  have hb := digit_bounds h
  have h0 : '0'.toNat = 48 := rfl
  omega

/-- A digit is written by its value. -/
theorem toDigits_digitValue {c : Char} (h : c.isDigit) :
    Nat.toDigits 10 (c.toNat - '0'.toNat) = [c] := by
  have hb := digit_bounds h
  have h0 : '0'.toNat = 48 := rfl
  rw [Nat.toDigits_of_lt_base (digitValue_lt h), List.cons.injEq, Char.toNat_inj.symm,
    Nat.toNat_digitChar_of_lt_ten (digitValue_lt h)]
  simp only [and_true]
  omega

/-! ## Reading digits back -/

/-- The fold of `digitsValue?` is `Nat.ofDigitChars`. -/
theorem foldl_digits (cs : List Char) (acc : Nat) :
    cs.foldl (fun acc c => acc * 10 + (c.toNat - '0'.toNat)) acc = Nat.ofDigitChars 10 cs acc := by
  rw [Nat.ofDigitChars_eq_foldl]
  congr 1
  funext a c
  rw [Nat.mul_comm]

theorem digitsValue?_eq_some_iff_digits {cs : List Char} {n : Nat} :
    digitsValue? cs = some n ↔ cs ≠ [] ∧ (∀ c ∈ cs, c.isDigit) ∧ n = Nat.ofDigitChars 10 cs 0 := by
  cases cs with
  | nil => simp [digitsValue?]
  | cons c cs =>
    simp only [digitsValue?, foldl_digits, ne_eq, reduceCtorEq, not_false_eq_true, true_and]
    by_cases hd : (c :: cs).all Char.isDigit
    · have hd' : ∀ x ∈ c :: cs, x.isDigit := List.all_eq_true.1 hd
      rw [if_pos hd, Option.some.injEq, eq_comm]
      exact ⟨fun h => ⟨hd', h⟩, fun h => h.2⟩
    · have hd' : ¬ ∀ x ∈ c :: cs, x.isDigit := fun h => hd (List.all_eq_true.2 h)
      rw [if_neg hd]
      exact ⟨fun h => (nomatch h), fun h => absurd h.1 hd'⟩

/-- A string of digits is a numeral in its shortest form padded with zeros. -/
theorem exists_zeros_append_toDigits {cs : List Char} (hne : cs ≠ []) (hd : ∀ c ∈ cs, c.isDigit) :
    ∃ k, cs = List.replicate k '0' ++ Nat.toDigits 10 (Nat.ofDigitChars 10 cs 0) := by
  -- read from the right: the last digit extends the numeral of the digits before it
  induction cs using List.reverseRecOn with
  | nil => exact absurd rfl hne
  | append_singleton cs c ih =>
    have hc : c.isDigit := hd c (by simp)
    rw [Nat.ofDigitChars_append, Nat.ofDigitChars_cons, Nat.ofDigitChars_nil]
    by_cases hcs : cs = []
    · subst hcs
      refine ⟨0, ?_⟩
      rw [Nat.ofDigitChars_nil, Nat.mul_zero, Nat.zero_add, toDigits_digitValue hc]
      rfl
    obtain ⟨k, hk⟩ := ih hcs fun c' h' => hd c' (List.mem_append_left _ h')
    by_cases hv : Nat.ofDigitChars 10 cs 0 = 0
    · -- only zeros so far: the last digit is the whole numeral
      refine ⟨k + 1, ?_⟩
      rw [hv, Nat.mul_zero, Nat.zero_add, toDigits_digitValue hc]
      rw [hv, Nat.toDigits_zero] at hk
      rw [hk, List.replicate_succ']
    · refine ⟨k, ?_⟩
      rw [← Nat.toDigits_append_toDigits (by decide) (Nat.pos_of_ne_zero hv) (digitValue_lt hc),
        toDigits_digitValue hc, ← List.append_assoc, ← hk]

/-- Reading accepts exactly a numeral in its shortest form with zeros in front. -/
theorem digitsValue?_eq_some_iff {cs : List Char} {n : Nat} :
    digitsValue? cs = some n ↔ ∃ k, cs = List.replicate k '0' ++ Nat.toDigits 10 n := by
  rw [digitsValue?_eq_some_iff_digits]
  constructor
  · rintro ⟨hne, hd, rfl⟩
    exact exists_zeros_append_toDigits hne hd
  · rintro ⟨k, rfl⟩
    refine ⟨by simp, fun c hc => ?_, ?_⟩
    · rcases List.mem_append.1 hc with h | h
      · rw [List.eq_of_mem_replicate h]
        rfl
      · exact Nat.isDigit_of_mem_toDigits (by decide) (by decide) h
    · rw [Nat.ofDigitChars_append, Nat.ofDigitChars_replicate_zero, Nat.mul_zero,
        Nat.ofDigitChars_ten_toDigits]

theorem digitsValue?_toDigits (n : Nat) : digitsValue? (Nat.toDigits 10 n) = some n :=
  digitsValue?_eq_some_iff.2 ⟨0, rfl⟩

/-- Decimal notation is injective. -/
theorem toString_injective : Function.Injective (toString : Nat → String) := by
  intro i j h
  have hread := congrArg (fun s : String => digitsValue? s.toList) h
  simpa only [Nat.toString_eq_repr, Nat.toList_repr, digitsValue?_toDigits, Option.some.injEq]
    using hread

end ComposeLowering
