import Mathlib
import ComposeLowering.Ty.Interner
import ComposeLowering.Proofs.Safe

/-!
# Hash-consing

The interner keeps its table and its map from stored types to handles inverse to each other
(`Inv`): the map sends the type at each handle back to that handle, and every entry of the map
names a handle whose stored type is its key. Then a handle stands for exactly one type and a type
for exactly one handle (`Inv.handle_eq_iff`), which is what lets the rest of the program compare
types by their handles.

Storing is the only way the table changes: a type already stored gives its handle back, and a
new one goes at the end of the table and into the map (`Inv.store`). Every call of the interface
is a few stores around reads of the table, so the invariant, together with the fact that parts
are stored before the types that refer to them, holds after any sequence of calls that passes
only handles already handed out (`Reachable.inv`), and such calls never fault
(`InternerCall.run_ok`). The flag updates are then determined by the data they produce: each one is
idempotent, changes only its flag, and the two commute as handles.
-/

namespace ComposeLowering

namespace TypeInterner

variable {t : TypeInterner} {d : TyData}

/-! ## The invariant -/

/-- The table and the map are inverse, and parts are stored before the types that refer to
them. -/
structure Consistent (t : TypeInterner) : Prop where
  /-- The map sends the type at each handle back to the handle. -/
  cache_types : ∀ i (hi : i < t.types.size), t.cache[t.types[i]]? = some i
  /-- Every entry of the map names a handle whose stored type is its key. -/
  types_cache : ∀ e h, t.cache[e]? = some h → ∃ hh : h < t.types.size, t.types[h] = e
  /-- Parts are stored before the types that refer to them. -/
  parts_lt : ∀ i (hi : i < t.types.size), ∀ p ∈ t.types[i].parts, p < i

/-- A consistent interner whose first handles hold the common types. -/
structure Inv (t : TypeInterner) : Prop extends Consistent t where
  /-- The common types keep their handles. -/
  common : ∀ i (hi : i < commonKinds.length),
    ∃ hh : i < t.types.size, t.types[i] = { shape := .base commonKinds[i] }

/-- Two handles are equal exactly when they hold the same type. -/
theorem Consistent.handle_eq_iff (hI : Consistent t) {i j : Nat} (hi : i < t.types.size) (hj : j < t.types.size) :
    i = j ↔ t.types[i] = t.types[j] := by
  constructor
  · rintro rfl
    rfl
  · intro h
    have hci := hI.cache_types i hi
    rw [h, hI.cache_types j hj] at hci
    exact (Option.some.inj hci).symm

/-- The table after `t'` begins with the table of `t`. -/
def extending : Growth TypeInterner :=
  ⟨fun t t' => ∃ more, t'.types = t.types ++ more, fun t => ⟨#[], Array.append_empty.symm⟩,
    fun ⟨m₁, h₁⟩ ⟨m₂, h₂⟩ => ⟨m₁ ++ m₂, by rw [h₂, h₁, Array.append_assoc]⟩⟩

theorem size_le_of_extending {t t' : TypeInterner} (h : extending.rel t t') :
    t.types.size ≤ t'.types.size := by
  obtain ⟨more, hm⟩ := h
  rw [hm, Array.size_append]
  exact Nat.le_add_right _ _

/-- A stored type stays at its handle as the table grows. -/
theorem getElem_of_extending {t t' : TypeInterner} (h : extending.rel t t') {i : Nat}
    (hi : i < t.types.size) : ∃ hi' : i < t'.types.size, t'.types[i] = t.types[i] := by
  obtain ⟨more, hm⟩ := h
  refine ⟨Nat.lt_of_lt_of_le hi (size_le_of_extending ⟨more, hm⟩), ?_⟩
  simp only [hm, Array.getElem_append_left hi]

/-- That a handle holds a type survives growth. -/
theorem holds_stable : extending.Stable fun (h : Nat) t => ∃ hh : h < t.types.size, t.types[h] = d := by
  rintro h t t' hg ⟨hh, rfl⟩
  exact getElem_of_extending hg hh

/-- That a handle is in the table survives growth. -/
theorem lt_size_stable : extending.Stable fun (h : Nat) (t : TypeInterner) => h < t.types.size :=
  fun _ _ _ hg hh => Nat.lt_of_lt_of_le hh (size_le_of_extending hg)

/-! ## Storing -/

theorem store_of_cache_some {k : Nat} (h : t.cache[d]? = some k) : t.store d = (k, t) := by
  simp [store, h]

theorem store_of_cache_none (h : t.cache[d]? = none) :
    t.store d = (t.types.size,
      { cache := t.cache.insert d t.types.size, types := t.types.push d }) := by
  simp [store, h]

/-- Storing a type whose parts are stored keeps the table consistent, only appends to it, and
hands out a handle that holds the type. -/
theorem Consistent.store (hI : Consistent t) (hd : ∀ p ∈ d.parts, p < t.types.size) :
    Consistent (t.store d).2 ∧ extending.rel t (t.store d).2 ∧
      ∃ hh : (t.store d).1 < (t.store d).2.types.size, (t.store d).2.types[(t.store d).1] = d := by
  cases hc : t.cache[d]? with
  | some k =>
    -- stored already: nothing changes
    rw [store_of_cache_some hc]
    exact ⟨hI, extending.refl t, hI.types_cache d k hc⟩
  | none =>
    rw [store_of_cache_none hc]
    -- every stored type is in the map, so the new one differs from each of them
    have hne : ∀ i (hi : i < t.types.size), t.types[i] ≠ d := fun i hi he => by
      have := hI.cache_types i hi
      rw [he, hc] at this
      cases this
    refine ⟨⟨fun i hi => ?_, fun e h he => ?_, fun i hi p hp => ?_⟩, ⟨#[d], rfl⟩, by simp, by simp⟩
    · simp only [Array.size_push] at hi
      rw [Std.HashMap.getElem?_insert, Array.getElem_push]
      split
      · rename_i hlt
        simp [beq_iff_eq, Ne.symm (hne i hlt), hI.cache_types i hlt]
      · have : i = t.types.size := by omega
        subst this
        simp
    · rw [Std.HashMap.getElem?_insert] at he
      split at he
      · rename_i heq
        cases he
        simp only [beq_iff_eq] at heq
        simp [heq]
      · obtain ⟨hh, hty⟩ := hI.types_cache e h he
        exact ⟨by simp; omega, by simp [Array.getElem_push_lt hh, hty]⟩
    · simp only [Array.size_push] at hi
      simp only [Array.getElem_push] at hp ⊢
      split at hp
      · exact hI.parts_lt i ‹_› p hp
      · have : i = t.types.size := by omega
        subst this
        exact hd p hp

/-- The common types stay at their handles as the table grows. -/
theorem common_persists : extending.Persists fun t => ∀ i (hi : i < commonKinds.length),
    ∃ hh : i < t.types.size, t.types[i] = { shape := .base commonKinds[i] } :=
  fun _ _ hg hc i hi => by
    obtain ⟨hh, hty⟩ := hc i hi
    obtain ⟨hh', hty'⟩ := getElem_of_extending hg hh
    exact ⟨hh', hty'.trans hty⟩

theorem Inv.store (hI : Inv t) (hd : ∀ p ∈ d.parts, p < t.types.size) :
    Inv (t.store d).2 ∧ extending.rel t (t.store d).2 ∧
      ∃ hh : (t.store d).1 < (t.store d).2.types.size, (t.store d).2.types[(t.store d).1] = d := by
  obtain ⟨hC, hg, hholds⟩ := hI.toConsistent.store hd
  exact ⟨⟨hC, common_persists _ _ hg hI.common⟩, hg, hholds⟩

/-- A type that is not in the table goes at its end. -/
theorem Consistent.store_of_not_mem (hI : Consistent t) (hd : d ∉ t.types) :
    t.store d = (t.types.size,
      { cache := t.cache.insert d t.types.size, types := t.types.push d }) := by
  refine store_of_cache_none ?_
  cases hc : t.cache[d]? with
  | none => rfl
  | some h =>
    obtain ⟨hh, hty⟩ := hI.types_cache d h hc
    exact absurd (hty ▸ Array.getElem_mem hh) hd

/-! ## The new interner -/

/-- Storing distinct new types one after the other, the parts of each stored before it,
appends them in order. -/
theorem Consistent.foldl_store {L : List TyData} (hI : Consistent t)
    (hnodup : (t.types.toList ++ L).Nodup)
    (hparts : ∀ i (hi : i < L.length), ∀ p ∈ L[i].parts, p < t.types.size + i) :
    Consistent (L.foldl (fun t e => (t.store e).2) t) ∧
      (L.foldl (fun t e => (t.store e).2) t).types = t.types ++ L.toArray := by
  induction L generalizing t with
  | nil => exact ⟨hI, by simp⟩
  | cons e L ih =>
    have hnew : e ∉ t.types := fun hm =>
      (List.nodup_append.1 hnodup).2.2 e (Array.mem_toList_iff.2 hm) e List.mem_cons_self rfl
    obtain ⟨hI', -, -⟩ := hI.store (d := e) fun p hp => by
      simpa using hparts 0 (by simp) p (by simpa using hp)
    rw [hI.store_of_not_mem hnew] at hI'
    rw [List.foldl_cons, hI.store_of_not_mem hnew]
    -- the table is one longer, so each later type's parts are one position nearer its end
    obtain ⟨hC, htypes⟩ := ih hI' (by simpa using hnodup) fun i hi p hp => by
      have := hparts (i + 1) (by simpa using hi) p (by simpa using hp)
      simp only [Array.size_push]
      omega
    exact ⟨hC, by rw [htypes]; simp⟩

/-- The common types, as stored. -/
def commonData : List TyData := commonKinds.map fun b => { shape := .base b }

theorem new_eq : new = commonData.foldl (fun t e => (t.store e).2) {} := by
  rw [commonData, List.foldl_map]
  rfl

theorem consistent_empty : Consistent ({} : TypeInterner) :=
  ⟨fun _ hi => absurd hi (Nat.not_lt_zero _), fun _ _ h => by simp at h,
    fun _ hi => absurd hi (Nat.not_lt_zero _)⟩

/-- A new interner holds the common types at handles `0` to `7`, and nothing else. -/
theorem new_types : new.types = commonData.toArray := by
  rw [new_eq]
  have := (consistent_empty.foldl_store (L := commonData) (by decide) (by decide)).2
  simpa using this

theorem inv_new : Inv new := by
  refine ⟨?_, fun i hi => ?_⟩
  · rw [new_eq]
    exact (consistent_empty.foldl_store (L := commonData) (by decide) (by decide)).1
  · have hsize : new.types.size = commonKinds.length := by simp [new_types, commonData]
    refine ⟨hsize ▸ hi, ?_⟩
    simp [new_types, commonData]

/-! ## Calls -/

/-- The interner's steps run as a state monad over `Except`. -/
def sem : StepSemantics M TypeInterner Fault where
  run x s := x s
  run_pure _ _ := rfl
  run_bind _ _ _ := rfl

open StepSemantics

/-- A call that never faults from a consistent interner, keeps it consistent and only appends
to its table. -/
abbrev Sound {α : Type} (P : TypeInterner → Prop) (x : M α) (Q : α → TypeInterner → Prop) : Prop :=
  sem.Safe (fun _ => True) extending Inv P x Q

theorem sound_intern (d : TyData) :
    Sound (fun t => ∀ p ∈ d.parts, p < t.types.size) (intern d)
      fun h t => ∃ hh : h < t.types.size, t.types[h] = d :=
  Safe.of_run fun _ hI hd => ⟨_, _, rfl, hI.store hd⟩

theorem data_run {h : Nat} (hh : h < t.types.size) : data h t = .ok (t.types[h], t) := by
  unfold data
  simp only [bind, StateT.bind, get, getThe, MonadStateOf.get, StateT.get, pure, Except.pure,
    Except.bind]
  rw [dif_pos hh]
  rfl

/-- Reading a handle in the table gives its type and changes nothing. -/
theorem sound_data (h : Nat) (P : TypeInterner → Prop) :
    Sound (fun t => h < t.types.size ∧ P t) (data h)
      fun d t => ∃ hh : h < t.types.size, t.types[h] = d ∧ P t :=
  Safe.of_run fun _ hI ⟨hh, hP⟩ => ⟨_, _, data_run hh, hI, extending.refl _, hh, rfl, hP⟩

/-- A flag update whose setter keeps the parts, sets the flag and leaves a type with the flag
as it is, ends at a handle whose type is the old one with the flag set. -/
theorem sound_withFlag {flag : TyData → Bool} {set : TyData → TyData}
    (hparts : ∀ e, (set e).parts = e.parts) (hset : ∀ e, flag e → set e = e) (h : Nat) :
    Sound (fun t => h < t.types.size) (withFlag flag set h)
      fun h' t' => ∃ hh' : h' < t'.types.size, ∃ e, t'.types[h'] = set e ∧
        ∃ hh : h < t'.types.size, t'.types[h] = e := by
  unfold withFlag
  refine Safe.bind (Safe.of_inv (sound_data h fun _ => True) fun _ _ hh => ⟨hh, trivial⟩)
    fun e => ?_
  by_cases hf : flag e
  · -- the flag is set already: the handle itself
    rw [if_pos hf]
    refine Safe.pure _ fun t he => ?_
    obtain ⟨hh, he, -⟩ := he
    exact ⟨hh, e, by rw [hset e hf, he], hh, he⟩
  · -- the updated type has the parts of the old one, which are stored before it
    rw [if_neg hf]
    refine (((sound_intern (set e)).frame (holds_stable (d := e) h)).of_inv fun t hI he => ?_).mono
      (fun _ h => h) fun h' t' he' => ?_
    · obtain ⟨hh, he, -⟩ := he
      refine ⟨fun p hp => ?_, hh, he⟩
      rw [hparts, ← he] at hp
      exact Nat.lt_trans (hI.parts_lt h hh p hp) hh
    · obtain ⟨⟨hh', he'⟩, hh, he⟩ := he'
      exact ⟨hh', e, he', hh, he⟩

theorem sound_get (P : TypeInterner → Prop) :
    Sound P (get : M TypeInterner) fun t₀ t => t₀ = t ∧ P t :=
  Safe.of_run fun t hI hP => ⟨t, t, rfl, hI, extending.refl t, rfl, hP⟩

/-- Handles below a bound, all in the table: a fact that survives growth. -/
theorem handles_stable : extending.Stable fun (hs : List Nat) (t : TypeInterner) =>
    ∀ p ∈ hs, p < t.types.size :=
  fun _ _ _ hg h p hp => lt_size_stable p _ _ hg (h p hp)

/-- Substituting type parameters in a type below the fuel never faults: each part is stored
before the type that refers to it, so it is below the fuel less one. -/
theorem sound_remapAt (σ : List (Nat × Nat)) : ∀ fuel h, h < fuel →
    Sound (fun t => h < t.types.size) (remapAt σ fuel h) fun h' t => h' < t.types.size
  | 0, _, hlt => absurd hlt (Nat.not_lt_zero _)
  | fuel + 1, h, hlt => by
    rw [remapAt]
    refine Safe.bind (Safe.of_inv (sound_data h fun _ => True) fun _ _ hh => ⟨hh, trivial⟩)
      fun d => ?_
    -- the parts of the type are stored before it, hence below the fuel
    refine Safe.of_inv (Safe.of_pure_and (p := ∀ p ∈ d.parts, p < h)
      (P := fun t => h < t.types.size) fun hd => ?_) fun t hI he => ?_
    swap
    · obtain ⟨hh, hd, -⟩ := he
      exact ⟨hd ▸ hI.parts_lt h hh, hh⟩
    let P : TypeInterner → Prop := fun t => h < t.types.size
    have hP : extending.Persists P := lt_size_stable h
    have hpart : ∀ p ∈ d.parts, Sound P (remapAt σ fuel p) fun h' t => h' < t.types.size :=
      fun p hp => (sound_remapAt σ fuel p (by have := hd p hp; omega)).of_inv fun _ _ hPt =>
        Nat.lt_trans (hd p hp) hPt
    have hparts : ∀ xs : List Nat, (∀ p ∈ xs, p ∈ d.parts) →
        Sound P (xs.mapM (remapAt σ fuel)) fun ys t => ∀ y ∈ ys, y < t.types.size :=
      fun xs hxs => (Safe.mapM (Q := fun _ y t => y < t.types.size) (fun _ => lt_size_stable)
        hP xs fun p hp => hpart p (hxs p hp)).mono (fun _ h => h)
          fun _ _ h => forall_mem_of_forall₂ h
    split
    · -- a parameter: replaced when it has a substitute
      split
      · exact ((sound_intern _).of_inv fun _ _ _ p hp => by simp [TyData.parts] at hp).mono
          (fun _ h => h) fun _ _ h => h.1
      · exact Safe.pure _ fun _ hPt => hPt
    · -- a class: its arguments substituted, its underlying type kept
      rename_i name args u hs
      have hmem : ∀ p ∈ args, p ∈ d.parts := fun p hp => by simp [TyData.parts, hs, hp]
      refine Safe.bind ((hparts args hmem).keep hP) fun args' => ?_
      refine ((sound_intern _).of_inv fun t _ hPt => ?_).mono (fun _ h => h) fun _ _ h => h.1
      intro p hp
      simp only [TyData.parts, List.mem_append, Option.mem_toList] at hp
      rcases hp with hp | hp
      · exact hPt.1 p hp
      · exact Nat.lt_trans (hd p (by simp [TyData.parts, hs, hp])) hPt.2
    · -- a function type: its parameters, then its result
      rename_i ps r hs
      have hmem : ∀ p ∈ ps, p ∈ d.parts := fun p hp => by simp [TyData.parts, hs, hp]
      refine Safe.bind ((hparts ps hmem).keep hP) fun ps' => ?_
      refine Safe.bind (((hpart r (by simp [TyData.parts, hs])).frame (handles_stable ps')).of_inv
        fun _ _ hPt => ⟨hPt.2, hPt.1⟩) fun r' => ?_
      refine ((sound_intern _).of_inv fun t _ hPt => ?_).mono (fun _ h => h) fun _ _ h => h.1
      intro p hp
      simp only [TyData.parts, List.mem_append, List.mem_singleton] at hp
      rcases hp with hp | rfl
      · exact hPt.2 p hp
      · exact hPt.1
    · exact Safe.pure _ fun _ hPt => hPt

theorem sound_remap (σ : List (Nat × Nat)) (h : Nat) :
    Sound (fun t => h < t.types.size) (remap σ h) fun h' t => h' < t.types.size := by
  unfold remap
  split
  · exact Safe.pure _ fun _ hh => hh
  · -- the walk is given the size of the table as fuel
    refine Safe.bind (sound_get _) fun t₀ => ?_
    exact (Safe.of_pure_and fun hlt => sound_remapAt σ t₀.types.size h hlt).of_inv
      fun t _ ht => ⟨ht.1 ▸ ht.2, ht.2⟩

/-- Setting the nullable flag keeps the parts, sets the flag, and leaves a nullable type alone. -/
theorem sound_makeNullable (h : Nat) :
    Sound (fun t => h < t.types.size) (makeNullable h) fun h' t' => ∃ hh' : h' < t'.types.size,
      ∃ e, t'.types[h'] = { e with nullable := true } ∧ ∃ hh : h < t'.types.size, t'.types[h] = e := by
  unfold makeNullable
  exact @sound_withFlag (·.nullable) ({ · with nullable := true }) (fun _ => rfl)
    (fun e he => by cases e; simp_all) h

/-- Setting the composable flag keeps the parts, sets the flag, and leaves a composable type
alone. -/
theorem sound_makeComposable (h : Nat) :
    Sound (fun t => h < t.types.size) (makeComposable h) fun h' t' => ∃ hh' : h' < t'.types.size,
      ∃ e, t'.types[h'] = { e with composable := true } ∧
        ∃ hh : h < t'.types.size, t'.types[h] = e := by
  unfold makeComposable
  exact @sound_withFlag (·.composable) ({ · with composable := true }) (fun _ => rfl)
    (fun e he => by cases e; simp_all) h

end TypeInterner

/-! ## Sequences of calls -/

/-- A call of the interner's interface, with its arguments. -/
inductive InternerCall where
  | intern (d : TyData)
  | internKind (s : Shape Nat)
  | cls (name : String) (args : List Nat)
  | inlineClass (name : String) (underlying : Nat)
  | function (params : List Nat) (ret : Nat)
  | composableFunction (params : List Nat) (ret : Nat)
  | typeParam (id : Nat)
  | makeNullable (h : Nat)
  | makeComposable (h : Nat)
  | remap (σ : List (Nat × Nat)) (h : Nat)

namespace InternerCall

open TypeInterner StepSemantics

/-- Runs the call. -/
def run : InternerCall → M Nat
  | .intern d => TypeInterner.intern d
  | .internKind s => TypeInterner.internKind s
  | .cls name args => TypeInterner.cls name args
  | .inlineClass name u => TypeInterner.inlineClass name u
  | .function ps r => TypeInterner.function ps r
  | .composableFunction ps r => TypeInterner.composableFunction ps r
  | .typeParam id => TypeInterner.typeParam id
  | .makeNullable h => TypeInterner.makeNullable h
  | .makeComposable h => TypeInterner.makeComposable h
  | .remap σ h => TypeInterner.remap σ h

/-- The handles the call is passed, the parts of an interned type included. -/
def handles : InternerCall → List Nat
  | .intern d => d.parts
  | .internKind s => TyData.parts { shape := s }
  | .cls _ args => args
  | .inlineClass _ u => [u]
  | .function ps r | .composableFunction ps r => ps ++ [r]
  | .typeParam _ => []
  | .makeNullable h | .makeComposable h | .remap _ h => [h]

/-- A call that is passed only handles in the table never faults, keeps the invariant and hands
out a handle in the table. -/
theorem sound : ∀ c : InternerCall,
    Sound (fun t => ∀ p ∈ c.handles, p < t.types.size) c.run fun h t => h < t.types.size
  | .intern d => ((sound_intern d).mono (fun _ h => h) fun _ _ h => h.1)
  | .internKind s => ((sound_intern _).mono (fun _ h => h) fun _ _ h => h.1)
  | .cls name args => ((sound_intern _).mono (fun _ h p hp => h p (by simpa [TyData.parts,
      handles] using hp)) fun _ _ h => h.1)
  | .inlineClass name u => ((sound_intern _).mono (fun _ h p hp => h p (by simpa [TyData.parts,
      handles] using hp)) fun _ _ h => h.1)
  | .function ps r => ((sound_intern _).mono (fun _ h p hp => h p (by simpa [TyData.parts,
      handles] using hp)) fun _ _ h => h.1)
  | .composableFunction ps r => by
    refine Safe.bind ((sound_intern _).mono (fun _ h p hp => h p (by simpa [TyData.parts,
      handles] using hp)) fun _ _ h => h.1) fun f => ?_
    exact (sound_makeComposable f).mono (fun _ h => h) fun _ _ h => h.1
  | .typeParam id => ((sound_intern _).mono (fun _ _ p hp => by simp [TyData.parts] at hp)
      fun _ _ h => h.1)
  | .makeNullable h => ((sound_makeNullable h).mono (fun _ hh => hh h (by simp [handles]))
      fun _ _ h => h.1)
  | .makeComposable h => ((sound_makeComposable h).mono (fun _ hh => hh h (by simp [handles]))
      fun _ _ h => h.1)
  | .remap σ h => ((sound_remap σ h).mono (fun _ hh => hh h (by simp [handles])) fun _ _ h => h)

/-- A call passed only handles in the table of a consistent interner succeeds. -/
theorem run_ok {t : TypeInterner} (hI : Inv t) (c : InternerCall)
    (hc : ∀ p ∈ c.handles, p < t.types.size) :
    ∃ h t', c.run t = .ok (h, t') ∧ Inv t' ∧ h < t'.types.size := by
  obtain ⟨h, t', hrun, hI', -, hh⟩ := Safe.exists_ok (sound c) hI hc
  exact ⟨h, t', hrun, hI', hh⟩

end InternerCall

namespace TypeInterner

/-- The interners that a sequence of calls from a new one reaches, each call passed only
handles already in the table. -/
inductive Reachable : TypeInterner → Prop
  | new : Reachable new
  | call {t t' : TypeInterner} {c : InternerCall} {h : Nat} (ht : Reachable t)
      (hc : ∀ p ∈ c.handles, p < t.types.size) (hrun : c.run t = .ok (h, t')) : Reachable t'

theorem Reachable.inv {t : TypeInterner} (ht : Reachable t) : Inv t := by
  induction ht with
  | new => exact inv_new
  | call _ hc hrun ih => exact ((InternerCall.sound _).1 _ _ _ hrun ih hc).1

/-! ## Consequences -/

open StepSemantics

/-- Interning two types one after the other: each handle holds its type, and the two handles
are equal exactly when the types are. -/
theorem Inv.intern_intern (hI : Inv t) {x₁ x₂ : TyData} (hx₁ : ∀ p ∈ x₁.parts, p < t.types.size)
    (hx₂ : ∀ p ∈ x₂.parts, p < t.types.size) {a₁ a₂ : Nat} {t₁ t₂ : TypeInterner}
    (r₁ : intern x₁ t = .ok (a₁, t₁)) (r₂ : intern x₂ t₁ = .ok (a₂, t₂)) :
    t₂.types[a₁]? = some x₁ ∧ t₂.types[a₂]? = some x₂ ∧ (a₁ = a₂ ↔ x₁ = x₂) := by
  obtain ⟨hI₁, hg₁, ha₁, he₁⟩ := (sound_intern x₁).1 t a₁ t₁ r₁ hI hx₁
  obtain ⟨hI₂, hg₂, ha₂, he₂⟩ := (sound_intern x₂).1 t₁ a₂ t₂ r₂ hI₁
    fun p hp => lt_size_stable p t t₁ hg₁ (hx₂ p hp)
  obtain ⟨ha₁', he₁'⟩ := getElem_of_extending hg₂ ha₁
  refine ⟨by rw [Array.getElem?_eq_getElem ha₁', he₁', he₁],
    by rw [Array.getElem?_eq_getElem ha₂, he₂], ?_⟩
  rw [hI₂.handle_eq_iff ha₁' ha₂, he₁', he₁, he₂]

/-- A flag update on a type whose flag is set hands back the handle and changes nothing. -/
theorem withFlag_of_flag {flag : TyData → Bool} {set : TyData → TyData} {h : Nat}
    (hh : h < t.types.size) (hf : flag t.types[h]) : withFlag flag set h t = .ok (h, t) := by
  unfold withFlag
  simp only [bind, StateT.bind, data_run hh, Except.bind, if_pos hf]
  rfl

/-- A flag update on a type whose flag is not set interns the type with the flag set. -/
theorem withFlag_of_not_flag {flag : TyData → Bool} {set : TyData → TyData} {h : Nat}
    (hh : h < t.types.size) (hf : flag t.types[h] = false) :
    withFlag flag set h t = .ok (t.store (set t.types[h])) := by
  unfold withFlag
  simp only [bind, StateT.bind, data_run hh, Except.bind, hf]
  rfl

/-- Setting the nullable flag: the new handle holds the type with the flag set, and setting it
again changes nothing. -/
theorem Inv.makeNullable_sets (hI : Inv t) {h : Nat} (hh : h < t.types.size) :
    ∃ h' t', makeNullable h t = .ok (h', t') ∧
      t'.types[h']? = some { t.types[h] with nullable := true } ∧
        makeNullable h' t' = .ok (h', t') := by
  obtain ⟨h', t', hrun, -, hg, hh', e, he', hh₀, he⟩ := Safe.exists_ok (sound_makeNullable h) hI hh
  obtain ⟨_, hold⟩ := getElem_of_extending hg hh
  have hdata : t'.types[h'] = { t.types[h] with nullable := true } := by rw [he', ← he, hold]
  exact ⟨h', t', hrun, by rw [Array.getElem?_eq_getElem hh', hdata],
    withFlag_of_flag hh' (by rw [hdata])⟩

/-- Setting the composable flag: the new handle holds the type with the flag set, and setting it
again changes nothing. -/
theorem Inv.makeComposable_sets (hI : Inv t) {h : Nat} (hh : h < t.types.size) :
    ∃ h' t', makeComposable h t = .ok (h', t') ∧
      t'.types[h']? = some { t.types[h] with composable := true } ∧
        makeComposable h' t' = .ok (h', t') := by
  obtain ⟨h', t', hrun, -, hg, hh', e, he', hh₀, he⟩ :=
    Safe.exists_ok (sound_makeComposable h) hI hh
  obtain ⟨_, hold⟩ := getElem_of_extending hg hh
  have hdata : t'.types[h'] = { t.types[h] with composable := true } := by rw [he', ← he, hold]
  exact ⟨h', t', hrun, by rw [Array.getElem?_eq_getElem hh', hdata],
    withFlag_of_flag hh' (by rw [hdata])⟩

/-- Setting both flags in either order gives the same handle: both handles hold the type with
both flags set, and a type has one handle. -/
theorem Inv.flags_commute (hI : Inv t) {h : Nat} (hh : h < t.types.size)
    {a₁ a b₁ b : Nat} {t₁ t₂ t₃ t₄ : TypeInterner}
    (r₁ : makeComposable h t = .ok (a₁, t₁)) (r₂ : makeNullable a₁ t₁ = .ok (a, t₂))
    (r₃ : makeNullable h t₂ = .ok (b₁, t₃)) (r₄ : makeComposable b₁ t₃ = .ok (b, t₄)) : a = b := by
  obtain ⟨hI₁, hg₁, ha₁, e₁, he₁, hh₁, hold₁⟩ := (sound_makeComposable h).1 t a₁ t₁ r₁ hI hh
  obtain ⟨hI₂, hg₂, ha, e₂, he₂, ha₁', hold₂⟩ := (sound_makeNullable a₁).1 t₁ a t₂ r₂ hI₁ ha₁
  have hh₂ : h < t₂.types.size := lt_size_stable h t t₂ (extending.trans hg₁ hg₂) hh
  obtain ⟨hI₃, hg₃, hb₁, e₃, he₃, hh₃, hold₃⟩ := (sound_makeNullable h).1 t₂ b₁ t₃ r₃ hI₂ hh₂
  obtain ⟨hI₄, hg₄, hb, e₄, he₄, hb₁', hold₄⟩ := (sound_makeComposable b₁).1 t₃ b t₄ r₄ hI₃ hb₁
  -- the types met along the way, all at the handles they were found at
  have hgrow : ∀ {u u' : TypeInterner}, extending.rel u u' → ∀ {i} (hi : i < u.types.size)
      (hi' : i < u'.types.size), u'.types[i] = u.types[i] := fun hg _ hi _ =>
    (getElem_of_extending hg hi).2
  have hd₁ : e₁ = t.types[h] := by rw [← hold₁, hgrow hg₁ hh]
  have hd₂ : e₂ = { t.types[h] with composable := true } := by
    rw [← hold₂, hgrow hg₂ ha₁, he₁, hd₁]
  have hd₃ : e₃ = t.types[h] := by
    rw [← hold₃, hgrow hg₃ hh₂, hgrow (extending.trans hg₁ hg₂) hh]
  have hd₄ : e₄ = { t.types[h] with nullable := true } := by
    rw [← hold₄, hgrow hg₄ hb₁, he₃, hd₃]
  have ha₄ : a < t₄.types.size := lt_size_stable a t₂ t₄ (extending.trans hg₃ hg₄) ha
  rw [hI₄.handle_eq_iff ha₄ hb, hgrow (extending.trans hg₃ hg₄) ha, he₂, he₄, hd₂, hd₄]

/-- A common type is at its handle, and interning it again hands that handle back. -/
theorem Inv.common_handle (hI : Inv t) (i : Nat) (hi : i < commonKinds.length) :
    t.types[i]? = some { shape := .base commonKinds[i] } ∧
      internKind (.base commonKinds[i]) t = .ok (i, t) := by
  obtain ⟨hh, hty⟩ := hI.common i hi
  have hcache := hI.cache_types i hh
  rw [hty] at hcache
  refine ⟨by rw [Array.getElem?_eq_getElem hh, hty], ?_⟩
  show Except.ok (t.store { shape := .base commonKinds[i] }) = _
  rw [store_of_cache_some hcache]

/-- What hash-consing promises of an interner: the table and the map are inverse, so interning
gives a handle holding the type and one handle for each type; the common types keep their
handles; calls passed handles in the table succeed; and the flag updates set only their flag,
are idempotent, and commute as handles. -/
structure HashConsed (t : TypeInterner) : Prop where
  /-- The map sends the type at each handle back to that handle. -/
  cache_types : ∀ i (hi : i < t.types.size), t.cache[t.types[i]]? = some i
  /-- Every entry of the map is of that form. -/
  types_cache : ∀ (e : TyData) (h : Nat), t.cache[e]? = some h → t.types[h]? = some e
  /-- Interning two types whose parts are stored, one after the other, hands out handles that
  hold them, equal exactly when the types are. -/
  intern_intern : ∀ x₁ x₂ : TyData, (∀ p ∈ x₁.parts, p < t.types.size) →
    (∀ p ∈ x₂.parts, p < t.types.size) → ∀ a₁ a₂ t₁ t₂, intern x₁ t = .ok (a₁, t₁) →
      intern x₂ t₁ = .ok (a₂, t₂) →
        t₂.types[a₁]? = some x₁ ∧ t₂.types[a₂]? = some x₂ ∧ (a₁ = a₂ ↔ x₁ = x₂)
  /-- Handles `0` to `7` hold the common types, and interning one of them gives its handle. -/
  common : ∀ i (hi : i < commonKinds.length),
    t.types[i]? = some { shape := .base commonKinds[i] } ∧
      internKind (.base commonKinds[i]) t = .ok (i, t)
  /-- A call passed only handles in the table succeeds, with a handle in the table. -/
  run_ok : ∀ c : InternerCall, (∀ p ∈ c.handles, p < t.types.size) →
    ∃ h t', c.run t = .ok (h, t') ∧ h < t'.types.size
  /-- Setting the nullable flag sets only that flag, and setting it again changes nothing. -/
  nullable_sets : ∀ h (hh : h < t.types.size), ∃ h' t', makeNullable h t = .ok (h', t') ∧
    t'.types[h']? = some { t.types[h] with nullable := true } ∧ makeNullable h' t' = .ok (h', t')
  /-- Setting the composable flag sets only that flag, and setting it again changes nothing. -/
  composable_sets : ∀ h (hh : h < t.types.size), ∃ h' t', makeComposable h t = .ok (h', t') ∧
    t'.types[h']? = some { t.types[h] with composable := true } ∧
      makeComposable h' t' = .ok (h', t')
  /-- Setting both flags, in either order one after the other, gives the same handle. -/
  flags_commute : ∀ h, h < t.types.size → ∀ a₁ a b₁ b t₁ t₂ t₃ t₄,
    makeComposable h t = .ok (a₁, t₁) → makeNullable a₁ t₁ = .ok (a, t₂) →
      makeNullable h t₂ = .ok (b₁, t₃) → makeComposable b₁ t₃ = .ok (b, t₄) → a = b

/-- Every interner reached from a new one by calls passed only handles already handed out is
hash-consed. -/
theorem reachable_hashConsed {t : TypeInterner} (ht : Reachable t) : HashConsed t where
  cache_types := ht.inv.cache_types
  types_cache e h he := by
    obtain ⟨hh, hty⟩ := ht.inv.types_cache e h he
    rw [Array.getElem?_eq_getElem hh, hty]
  intern_intern _ _ hx₁ hx₂ _ _ _ _ r₁ r₂ := ht.inv.intern_intern hx₁ hx₂ r₁ r₂
  common := ht.inv.common_handle
  run_ok c hc := by
    obtain ⟨h, t', hrun, -, hh⟩ := InternerCall.run_ok ht.inv c hc
    exact ⟨h, t', hrun, hh⟩
  nullable_sets _ hh := ht.inv.makeNullable_sets hh
  composable_sets _ hh := ht.inv.makeComposable_sets hh
  flags_commute _ hh _ _ _ _ _ _ _ _ r₁ r₂ r₃ r₄ := ht.inv.flags_commute hh r₁ r₂ r₃ r₄

/-! ## An interner reached by calls -/

/-- The type parameter `0`, the class `Box` over it, and the nullable `Box`. -/
def boxData : List TyData :=
  [{ shape := .param 0 }, { shape := .cls "Box" [8] none },
    { shape := .cls "Box" [8] none, nullable := true }]

/-- What a new interner becomes when the type parameter `0` is interned, then the class `Box`
over it, then that class is made nullable: `Box<T>?` at handle `10`. -/
def boxInterner : TypeInterner := boxData.foldl (fun t e => (t.store e).2) new

/-- The tables of a new interner after the first `n` types of `boxData` are stored. -/
theorem boxData_take_types (n : Nat) :
    ((boxData.take n).foldl (fun t e => (t.store e).2) new).types =
      commonData.toArray ++ (boxData.take n).toArray := by
  have hnodup : (commonData ++ boxData).Nodup := by decide
  have h := (inv_new.toConsistent.foldl_store (L := boxData.take n)
    (by rw [new_types]; exact hnodup.sublist ((List.take_sublist n boxData).append_left _))
    fun i hi p hp => by
      rw [List.getElem_take] at hp
      have : i < 3 := by simp [boxData] at hi; omega
      rw [new_types]
      interval_cases i <;> simp_all [boxData, TyData.parts, commonData, commonKinds]).2
  rwa [new_types] at h

theorem boxInterner_types : boxInterner.types = commonData.toArray ++ boxData.toArray :=
  boxData_take_types 3

/-- The three calls reach `boxInterner`: each is passed handles already in the table. -/
theorem reachable_boxInterner : Reachable boxInterner := by
  -- the interners after the first call and after the second
  let t₁ := (boxData.take 1).foldl (fun t e => (t.store e).2) new
  let t₂ := (boxData.take 2).foldl (fun t e => (t.store e).2) new
  have h₁ : t₁.types = _ := boxData_take_types 1
  have h₂ : t₂.types = _ := boxData_take_types 2
  have h8 : 8 < t₁.types.size := by rw [h₁]; decide
  -- making `Box` nullable reads handle `9`, which holds `Box` with the flag unset
  obtain ⟨h9, hbox⟩ : ∃ h9 : 9 < t₂.types.size, t₂.types[9] = { shape := .cls "Box" [8] none } :=
    Array.getElem?_eq_some_iff.1 (by rw [h₂]; decide)
  have hrun : InternerCall.run (.makeNullable 9) t₂ =
      .ok (t₂.store { shape := .cls "Box" [8] none, nullable := true }) := by
    rw [InternerCall.run, makeNullable, withFlag_of_not_flag h9 (by rw [hbox]), hbox]
  have hhandle : ∀ {h : Nat} {t : TypeInterner}, h < t.types.size → ∀ p ∈ [h], p < t.types.size :=
    fun hh p hp => List.mem_singleton.1 hp ▸ hh
  exact .call (.call (.call .new (c := .typeParam 0) (by simp [InternerCall.handles]) rfl)
    (c := .cls "Box" [8]) (hhandle h8) rfl) (c := .makeNullable 9) (hhandle h9) hrun

theorem boxInterner_hashConsed : Reachable boxInterner ∧ HashConsed boxInterner :=
  ⟨reachable_boxInterner, reachable_hashConsed reachable_boxInterner⟩

end TypeInterner

end ComposeLowering
