import ComposeLowering.Proofs.Digits

/-!
# Signature parts

A signature travels as four strings: package, declaration path, hash and mask. Writing puts the
numbers in shortest decimal and a missing hash as `null`. Reading wants exactly four parts and a
mask that reads as a 64-bit natural, written as an optional `+`, then digits with no overflow
(`parseUInt64?_eq_some_iff`: that is, zeros in front of a shortest numeral); a hash part that does
not read stands for a missing hash.

So reading undoes writing for every signature (`ofParts?_toParts`), while writing undoes reading
exactly on parts whose numbers are already in shortest form and whose hash part, if it is not
`null`, is a numeral (`toParts_eq_iff`). Every other hash part is written back as `null` or in its
shortest form.
-/

namespace ComposeLowering

/-! ## Reading 64-bit naturals -/

theorem toNat_toUInt64 {n : Nat} (h : n < Nat.pow 2 64) : n.toUInt64.toNat = n :=
  Nat.mod_eq_of_lt h

theorem toList_toString (v : UInt64) : (toString v).toList = Nat.toDigits 10 v.toNat := by
  show (toString v.toNat).toList = _
  rw [Nat.toString_eq_repr, Nat.toList_repr]

/-- The characters of a numeral with a sign and zeros in front. -/
theorem toList_padded (sign : String) (k : Nat) (v : UInt64) :
    (sign ++ String.ofList (List.replicate k '0') ++ toString v).toList =
      sign.toList ++ (List.replicate k '0' ++ Nat.toDigits 10 v.toNat) := by
  simp only [String.toList_append, String.toList_ofList, toList_toString, List.append_assoc]

/-- Digits hold no sign. -/
theorem plus_not_mem_of_digitsValue? {cs : List Char} {n : Nat} (h : digitsValue? cs = some n) :
    '+' ∉ cs := fun hmem =>
  absurd ((digitsValue?_eq_some_iff_digits.1 h).2.1 _ hmem) (by decide)

/-- A 64-bit natural is read from the characters after an optional `+`. -/
theorem parseUInt64?_eq_some_iff_digits {s : String} {v : UInt64} :
    parseUInt64? s = some v ↔ ∃ (sign : String) (cs : List Char), (sign = "" ∨ sign = "+") ∧
      s.toList = sign.toList ++ cs ∧ digitsValue? cs = some v.toNat := by
  -- below `2^64`, the natural read is the value exactly when it is the value's natural
  have hvalue : ∀ {n : Nat}, n < Nat.pow 2 64 → (n.toUInt64 = v ↔ n = v.toNat) := fun hlt =>
    ⟨fun h => h ▸ (toNat_toUInt64 hlt).symm, fun h => h ▸ UInt64.ofNat_toNat⟩
  have hbound : v.toNat < Nat.pow 2 64 := v.toNat_lt
  unfold parseUInt64?
  split
  · -- a leading `+` is dropped
    rename_i rest hs
    dsimp only
    constructor
    · intro h
      refine ⟨"+", rest, .inr rfl, hs, ?_⟩
      split at h
      · rename_i n hn
        split at h
        · rw [hn, ← (hvalue ‹_›).1 (Option.some.inj h)]
        · cases h
      · cases h
    · rintro ⟨sign, cs, rfl | rfl, hcs, hread⟩
      · have hsign : cs = '+' :: rest := by simpa [hs] using hcs.symm
        exact absurd (hsign ▸ List.mem_cons_self) (plus_not_mem_of_digitsValue? hread)
      · have hrest : rest = cs := by simpa [hs] using hcs
        subst hrest
        simp only [hread, if_pos hbound, UInt64.ofNat_toNat]
  · -- no sign: all characters are read
    rename_i hs
    dsimp only
    constructor
    · intro h
      refine ⟨"", s.toList, .inl rfl, rfl, ?_⟩
      split at h
      · rename_i n hn
        split at h
        · rw [hn, ← (hvalue ‹_›).1 (Option.some.inj h)]
        · cases h
      · cases h
    · rintro ⟨sign, cs, rfl | rfl, hcs, hread⟩
      · have hall : s.toList = cs := by simpa using hcs
        simp only [hall, hread, if_pos hbound, UInt64.ofNat_toNat]
      · exact absurd hcs (hs cs)

/-- Reading a 64-bit natural accepts exactly an optional `+`, zeros, and the shortest numeral of
the value. -/
theorem parseUInt64?_eq_some_iff {s : String} {v : UInt64} :
    parseUInt64? s = some v ↔ ∃ (sign : String) (k : Nat), (sign = "" ∨ sign = "+") ∧
      s = sign ++ String.ofList (List.replicate k '0') ++ toString v := by
  rw [parseUInt64?_eq_some_iff_digits]
  constructor
  · rintro ⟨sign, cs, hsign, hs, hcs⟩
    obtain ⟨k, rfl⟩ := digitsValue?_eq_some_iff.1 hcs
    exact ⟨sign, k, hsign, String.toList_inj.1 (by rw [hs, toList_padded])⟩
  · rintro ⟨sign, k, hsign, rfl⟩
    exact ⟨sign, _, hsign, toList_padded sign k v, digitsValue?_eq_some_iff.2 ⟨k, rfl⟩⟩

theorem parseUInt64?_toString (v : UInt64) : parseUInt64? (toString v) = some v :=
  parseUInt64?_eq_some_iff.2 ⟨"", 0, .inl rfl, by simp⟩

theorem parseUInt64?_null : parseUInt64? "null" = none := by decide

namespace IdSignature

/-! ## Parts -/

/-- Reading the parts of a signature gives it back. -/
theorem ofParts?_toParts (s : IdSignature) : ofParts? s.toParts = some s := by
  obtain ⟨p, d, i, m⟩ := s
  cases i <;> simp [toParts, ofParts?, parseUInt64?_toString, parseUInt64?_null]

/-- Parts read as a signature exactly when there are four of them and the last reads as a
64-bit natural. -/
theorem ofParts?_isSome_iff (parts : List String) :
    (ofParts? parts).isSome ↔ ∃ p d i m, parts = [p, d, i, m] ∧ (parseUInt64? m).isSome := by
  rcases parts with _ | ⟨p, _ | ⟨d, _ | ⟨i, _ | ⟨m, _ | ⟨x, rest⟩⟩⟩⟩⟩ <;> simp [ofParts?]

/-- What writing makes of read parts: the package and the path as they were, the hash part
`null` or in shortest form, and the mask in shortest form. -/
theorem toParts_of_ofParts? {p d i m : String} {s : IdSignature} (h : ofParts? [p, d, i, m] = some s) :
    s.toParts = [p, d, ((parseUInt64? i).map toString).getD "null", toString s.mask] ∧
      parseUInt64? m = some s.mask := by
  simp only [ofParts?, Option.map_eq_some_iff] at h
  obtain ⟨mask, hm, rfl⟩ := h
  exact ⟨by cases parseUInt64? i <;> rfl, hm⟩

/-- A hash part is written back as it was exactly when it is `null` or a shortest numeral. -/
theorem hashPart_eq_iff (i : String) :
    ((parseUInt64? i).map toString).getD "null" = i ↔ i = "null" ∨ ∃ n : UInt64, i = toString n := by
  constructor
  · intro h
    cases hi : parseUInt64? i with
    | none => rw [hi] at h; exact .inl h.symm
    | some n => rw [hi] at h; exact .inr ⟨n, h.symm⟩
  · rintro (rfl | ⟨n, rfl⟩)
    · rw [parseUInt64?_null]; rfl
    · rw [parseUInt64?_toString]; rfl

/-- Writing undoes reading exactly on parts whose mask is in shortest form and whose hash part is
`null` or a shortest numeral. -/
theorem toParts_eq_iff {p d i m : String} {s : IdSignature} (h : ofParts? [p, d, i, m] = some s) :
    s.toParts = [p, d, i, m] ↔ m = toString s.mask ∧ (i = "null" ∨ ∃ n : UInt64, i = toString n) := by
  obtain ⟨hparts, -⟩ := toParts_of_ofParts? h
  rw [hparts, ← hashPart_eq_iff]
  simp only [List.cons.injEq, true_and, and_true, eq_comm (a := toString s.mask)]
  exact and_comm

/-- Signatures and their parts: reading undoes writing; parts read exactly when there are four
of them and the mask is an optionally signed, zero-padded numeral of a 64-bit natural; and
writing undoes reading exactly when the mask is in shortest form and the hash part is `null` or
a shortest numeral, any other hash part being written back as `null` or in shortest form. -/
theorem parts_roundTrip :
    (∀ s : IdSignature, ofParts? s.toParts = some s) ∧
    (∀ parts : List String, (ofParts? parts).isSome ↔ ∃ p d i m, parts = [p, d, i, m] ∧
      ∃ (v : UInt64) (sign : String) (k : Nat), (sign = "" ∨ sign = "+") ∧
        m = sign ++ String.ofList (List.replicate k '0') ++ toString v) ∧
    (∀ p d i m s, ofParts? [p, d, i, m] = some s →
      (s.toParts = [p, d, i, m] ↔
        m = toString s.mask ∧ (i = "null" ∨ ∃ n : UInt64, i = toString n)) ∧
      s.toParts = [p, d, ((parseUInt64? i).map toString).getD "null", toString s.mask]) := by
  refine ⟨ofParts?_toParts, fun parts => ?_, fun p d i m s h => ⟨toParts_eq_iff h, (toParts_of_ofParts? h).1⟩⟩
  rw [ofParts?_isSome_iff]
  simp only [Option.isSome_iff_exists, parseUInt64?_eq_some_iff]

end IdSignature

end ComposeLowering
