import Mathlib
import ComposeLowering.Lowering.Synthetic
import ComposeLowering.Proofs.Digits

/-!
# The synthetic parameter calculator

The declaration rewriter and the call rewriter size the synthetic parameters independently, from
the functions of `ComposeLowering.Lowering.Synthetic` alone. This module says what those
functions compute, over every count:

* a count of bits becomes the number of 32-bit words that hold them, `⌈bits / 32⌉`
  (`words_eq_ceil`); there is always a change word, for the extra bit;
* as machine words, the only fault is the overflow of the change bits `real + receivers + 1`
  (`checkedParamCount_eq`): once that sum fits, the word counts are at most `2^59` each and their
  sum with the composer fits too;
* the appended parameters are the composer, the change words and then the default masks, in that
  order and in number `paramCount` (`getElem?_params`), and their names are pairwise distinct
  (`nodup_names`).
-/

namespace ComposeLowering

namespace Synthetic

/-! ## Words -/

/-- Rounding up is the Galois connection of multiplication by the word width. -/
theorem words_le_iff (bits c : Nat) : words bits ≤ c ↔ bits ≤ bitsPerWord * c := by
  unfold words bitsPerWord
  omega

/-- The words for `bits` bits are `⌈bits / 32⌉`. -/
theorem words_eq_ceil (bits : Nat) : words bits = ⌈(bits : ℚ) / bitsPerWord⌉₊ := by
  have hw : (0 : ℚ) < bitsPerWord := by norm_num [bitsPerWord]
  -- both sides are the least `c` with `bits ≤ 32 * c`
  have hle : ∀ c : Nat, ⌈(bits : ℚ) / bitsPerWord⌉₊ ≤ c ↔ words bits ≤ c := by
    intro c
    rw [Nat.ceil_le, div_le_iff₀ hw, words_le_iff, mul_comm]
    exact_mod_cast Iff.rfl
  exact le_antisymm ((hle _).1 le_rfl) ((hle _).2 le_rfl)

theorem changedWordCount_eq_ceil (real receivers : Nat) :
    changedWordCount real receivers = ⌈((real + receivers + 1 : Nat) : ℚ) / 32⌉₊ :=
  words_eq_ceil _

theorem defaultWordCount_eq_ceil (real : Nat) : defaultWordCount real = ⌈(real : ℚ) / 32⌉₊ :=
  words_eq_ceil _

/-- The extra change bit makes at least one change word. -/
theorem one_le_changedWordCount (real receivers : Nat) : 1 ≤ changedWordCount real receivers := by
  unfold changedWordCount words bitsPerWord
  omega

/-! ## Machine arithmetic -/

theorem checkedAdd_of_lt {a b : Nat} (h : a + b < wordLimit) : checkedAdd a b = .ok (a + b) := by
  simp [checkedAdd, Nat.not_le.2 h]

/-- Once the change bits fit in a word, each word count is at most `2^59`. -/
theorem words_le_of_lt {bits : Nat} (h : bits < wordLimit) : words bits ≤ Nat.pow 2 59 := by
  unfold words bitsPerWord
  unfold wordLimit at h
  norm_num at h ⊢
  omega

/-- Sizing the synthetic parameters with machine words faults exactly when the change bits
`real + receivers + 1` reach `2^64`; otherwise no sum overflows and the count is `paramCount`. -/
theorem checkedParamCount_eq (real receivers : Nat) (hasDefaults : Bool) :
    checkedParamCount real receivers hasDefaults =
      if wordLimit ≤ real + receivers + 1 then .error .addOverflow
      else .ok (paramCount real receivers hasDefaults) := by
  unfold checkedParamCount checkedChangedWordCount
  by_cases hfits : wordLimit ≤ real + receivers + 1
  · simp only [if_pos hfits]
    rfl
  · have hbits : real + receivers + 1 < wordLimit := Nat.lt_of_not_le hfits
    have hchanged : changedWordCount real receivers ≤ Nat.pow 2 59 := words_le_of_lt hbits
    have hone : 1 ≤ Nat.pow 2 59 := Nat.one_le_two_pow
    have hdefaults : (if hasDefaults then defaultWordCount real else 0) ≤ Nat.pow 2 59 := by
      split
      · exact words_le_of_lt (by omega)
      · exact Nat.zero_le _
    have hlimit : wordLimit = Nat.pow 2 59 * 32 := by unfold wordLimit; norm_num
    have hhead : 1 + changedWordCount real receivers < wordLimit := by omega
    simp only [if_neg hfits]
    change (checkedAdd 1 (changedWordCount real receivers) >>= fun head =>
      checkedAdd head (if hasDefaults then defaultWordCount real else 0)) = _
    rw [checkedAdd_of_lt hhead]
    exact checkedAdd_of_lt (by omega)

/-! ## The appended parameters -/

/-- The `i`-th appended parameter: the composer first, then change word `i - 1` up to the
number of change words, then, with defaults, the default masks. -/
theorem getElem?_params (real receivers : Nat) (hasDefaults : Bool) (i : Nat) :
    (params real receivers hasDefaults)[i]? =
      if i = 0 then some .composer
      else if i ≤ changedWordCount real receivers then some (.changed (i - 1))
      else if hasDefaults ∧ i ≤ changedWordCount real receivers + defaultWordCount real then
        some (.default (i - 1 - changedWordCount real receivers))
      else none := by
  rcases i with _ | i
  · rfl
  simp only [params, List.getElem?_cons_succ, List.getElem?_append, List.getElem?_map,
    Nat.add_one_ne_zero, if_false, Nat.add_sub_cancel]
  by_cases hc : i < changedWordCount real receivers
  · simp [hc, Nat.succ_le_of_lt hc]
  · have hc' : ¬ i + 1 ≤ changedWordCount real receivers := by omega
    cases hasDefaults with
    | false => simp [hc']
    | true =>
      -- past the change words, the index counts into the default masks
      by_cases hd : i - changedWordCount real receivers < defaultWordCount real
      · simp [hc', List.getElem?_range hd]
        omega
      · have hnone : (List.range (defaultWordCount real))[i - changedWordCount real receivers]? =
            none := List.getElem?_eq_none (by rw [List.length_range]; omega)
        simp [hc', hnone]
        omega

end Synthetic

/-! ## Names -/

namespace SyntheticParam

/-- A word's name is its stem followed by its number, left out for the first word. -/
theorem name_changed (i : Nat) : (changed i).name = "$changed" ++ if i = 0 then "" else toString i := by
  cases i <;> rfl

theorem name_default (i : Nat) : (default i).name = "$default" ++ if i = 0 then "" else toString i := by
  cases i <;> rfl

/-- The number after a stem tells the word apart: a number is never empty, and decimal notation
is injective. -/
theorem wordNumber_injective {i j : Nat}
    (h : (if i = 0 then "" else toString i) = if j = 0 then "" else toString j) : i = j := by
  by_cases hi : i = 0 <;> by_cases hj : j = 0 <;> simp only [hi, hj, if_true, if_false] at h
  · exact hi.trans hj.symm
  · exact absurd h.symm Nat.repr_ne_empty
  · exact absurd h Nat.repr_ne_empty
  · exact toString_injective h

/-- Distinct appended parameters have distinct names. -/
theorem name_injective : Function.Injective name := by
  -- the stems `$composer`, `$changed` and `$default` differ in their first three characters
  have hstems : ∀ a b : String, "$changed" ++ a ≠ "$default" ++ b ∧ "$changed" ++ a ≠ "$composer" ∧
      "$default" ++ a ≠ "$composer" := fun a b => by
    refine ⟨fun h => ?_, fun h => ?_, fun h => ?_⟩ <;>
      simpa using congrArg String.toList h
  rintro (_ | i | i) (_ | j | j) h
  · rfl
  · exact absurd ((name_changed j).symm.trans h.symm) (hstems _ "").2.1
  · exact absurd ((name_default j).symm.trans h.symm) (hstems _ "").2.2
  · exact absurd ((name_changed i).symm.trans h) (hstems _ "").2.1
  · rw [name_changed, name_changed, String.append_right_inj] at h
    rw [wordNumber_injective h]
  · rw [name_changed, name_default] at h
    exact absurd h (hstems _ _).1
  · exact absurd ((name_default i).symm.trans h) (hstems _ "").2.2
  · rw [name_default, name_changed] at h
    exact absurd h.symm (hstems _ _).1
  · rw [name_default, name_default, String.append_right_inj] at h
    rw [wordNumber_injective h]

end SyntheticParam

namespace Synthetic

theorem nodup_params (real receivers : Nat) (hasDefaults : Bool) :
    (params real receivers hasDefaults).Nodup := by
  have hchanged : ((List.range (changedWordCount real receivers)).map SyntheticParam.changed).Nodup :=
    List.nodup_range.map fun _ _ h => SyntheticParam.changed.inj h
  have hdefaults : (if hasDefaults then (List.range (defaultWordCount real)).map SyntheticParam.default
      else []).Nodup := by
    split
    · exact List.nodup_range.map fun _ _ h => SyntheticParam.default.inj h
    · exact List.nodup_nil
  unfold params
  refine List.nodup_cons.2 ⟨?_, List.nodup_append.2 ⟨hchanged, hdefaults, ?_⟩⟩
  · split <;> simp
  · -- change words and default masks are different constructors
    intro a ha b hb
    obtain ⟨i, -, rfl⟩ := List.mem_map.1 ha
    split at hb
    · obtain ⟨j, -, rfl⟩ := List.mem_map.1 hb
      exact SyntheticParam.noConfusion
    · cases hb

/-- The appended parameters have pairwise distinct names. -/
theorem nodup_names (real receivers : Nat) (hasDefaults : Bool) :
    ((params real receivers hasDefaults).map SyntheticParam.name).Nodup :=
  (nodup_params real receivers hasDefaults).map SyntheticParam.name_injective

theorem checkedChangedWordCount_eq (real receivers : Nat) :
    checkedChangedWordCount real receivers =
      if wordLimit ≤ real + receivers + 1 then .error .addOverflow
      else .ok (changedWordCount real receivers) := rfl

/-- The synthetic parameter calculator over all counts. Sizing faults, with an addition
overflow, exactly when the change bits `real + receivers + 1` reach `2^64`; otherwise there are
`⌈(real + receivers + 1) / 32⌉ ≥ 1` change words, the default masks `⌈real / 32⌉` are counted
without a fault, and the count is one composer, the change words and the masks if there are
defaults. The appended parameters are exactly these, in that order, and their names are pairwise
distinct. -/
theorem syntheticParams_spec (real receivers : Nat) (hasDefaults : Bool) :
    (checkedChangedWordCount real receivers =
        if wordLimit ≤ real + receivers + 1 then .error .addOverflow
        else .ok (changedWordCount real receivers)) ∧
    (checkedParamCount real receivers hasDefaults =
        if wordLimit ≤ real + receivers + 1 then .error .addOverflow
        else .ok (1 + changedWordCount real receivers +
          if hasDefaults then defaultWordCount real else 0)) ∧
    changedWordCount real receivers = ⌈((real + receivers + 1 : Nat) : ℚ) / 32⌉₊ ∧
    1 ≤ changedWordCount real receivers ∧
    defaultWordCount real = ⌈(real : ℚ) / 32⌉₊ ∧
    (params real receivers hasDefaults).length = paramCount real receivers hasDefaults ∧
    (∀ i, (params real receivers hasDefaults)[i]? =
      if i = 0 then some .composer
      else if i ≤ changedWordCount real receivers then some (.changed (i - 1))
      else if hasDefaults ∧ i ≤ changedWordCount real receivers + defaultWordCount real then
        some (.default (i - 1 - changedWordCount real receivers))
      else none) ∧
    ((params real receivers hasDefaults).map SyntheticParam.name).Nodup :=
  ⟨checkedChangedWordCount_eq real receivers, checkedParamCount_eq real receivers hasDefaults,
    changedWordCount_eq_ceil real receivers, one_le_changedWordCount real receivers,
    defaultWordCount_eq_ceil real, length_params real receivers hasDefaults,
    getElem?_params real receivers hasDefaults, nodup_names real receivers hasDefaults⟩

end Synthetic

end ComposeLowering
