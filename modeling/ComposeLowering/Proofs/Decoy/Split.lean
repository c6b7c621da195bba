import Mathlib.Data.List.Nodup
import ComposeLowering.Proofs.CopyFrame
import ComposeLowering.Proofs.Composer.Settled

/-!
# The names of decoy implementations

Splitting a member of a container names its implementation by the first candidate among
`N$composable`, `N$composable0`, `N$composable1`, … that is free: neither the name of a member or
class of the container nor a name already handed out there (`implementationName_firstFree`).
Only the first `claimed + taken + 1` numbered candidates are searched, and that is enough: the
candidates are pairwise distinct, so one of them avoids the `claimed + taken` names that block
(`exists_free_candidate`).
-/

namespace ComposeLowering

namespace Decoy

/-! ## Candidates -/

/-- The candidates for an implementation name, in the order they are tried: `base`, then `base0`,
`base1`, … -/
def candidate (base : String) : Nat → String
  | 0 => base
  | i + 1 => base ++ toString i

/-- Distinct positions give distinct candidates: a number is never empty, and decimal notation
is injective. -/
theorem candidate_injective (base : String) : Function.Injective (candidate base) := by
  have hsuffix : ∀ i, base ++ toString i ≠ base := fun i h => by
    conv at h => rhs; rw [← String.append_empty (s := base)]
    rw [Nat.toString_eq_repr] at h
    exact Nat.repr_ne_empty ((String.append_right_inj base).1 h)
  rintro (_ | i) (_ | j) h
  · rfl
  · exact absurd h.symm (hsuffix j)
  · exact absurd h (hsuffix i)
  · -- decimal notation reads back to the number
    simp only [candidate, String.append_right_inj, Nat.toString_eq_repr] at h
    have hread := congrArg (fun r : String => Nat.ofDigitChars 10 r.toList 0) h
    simp only [Nat.toList_repr, Nat.ofDigitChars_ten_toDigits] at hread
    rw [hread]

/-- `name` is the first of the candidates for `base` that `free` accepts. -/
def FirstFree (free : String → Bool) (base name : String) : Prop :=
  ∃ k, name = candidate base k ∧ free name = true ∧ ∀ j < k, free (candidate base j) = false

/-- Among `n + 1` numbered candidates, one avoids any `n` names. -/
theorem exists_free_candidate (base : String) (blocked : List String) :
    ∃ i < blocked.length + 1, base ++ toString i ∉ blocked := by
  by_contra hnone
  push Not at hnone
  have hnodup : ((List.range (blocked.length + 1)).map fun i => candidate base (i + 1)).Nodup :=
    List.nodup_range.map fun i j h => Nat.succ.inj (candidate_injective base h)
  have hsub : ((List.range (blocked.length + 1)).map fun i => candidate base (i + 1)) ⊆ blocked := by
    intro x hx
    obtain ⟨i, hi, rfl⟩ := List.mem_map.1 hx
    exact hnone i (List.mem_range.1 hi)
  have hlen := hnodup.length_le_of_subset hsub
  simp only [List.length_map, List.length_range] at hlen
  omega

/-- A name is free in a container unless it was handed out there or is taken there. -/
theorem isFree_eq_false {s : SplitState} {c : ContainerId} {taken : List String} {name : String} :
    s.isFree c taken name = false ↔ (c, name) ∈ s.claimed ∨ name ∈ taken := by
  simp only [SplitState.isFree, Bool.and_eq_false_iff, Bool.not_eq_false', List.contains_iff_mem]

/-- The implementation name is the first free candidate. -/
theorem implementationName_firstFree (s : SplitState) (c : ContainerId) (d : DeclId) :
    FirstFree (s.isFree c (s.module.namesIn c)) (Names.dexSafe (s.module.declName d) ++ implSuffix)
      (s.implementationName c d) := by
  unfold SplitState.implementationName
  generalize Names.dexSafe (s.module.declName d) ++ implSuffix = base
  generalize s.module.namesIn c = taken
  dsimp only
  split
  · exact ⟨0, rfl, ‹_›, fun j hj => absurd hj (Nat.not_lt_zero _)⟩
  rename_i hbase
  -- a free numbered candidate exists within the bound, so the search finds the first one
  obtain ⟨i, hi, hout⟩ := exists_free_candidate base (s.claimed.map (·.2) ++ taken)
  have hfree : s.isFree c taken (base ++ toString i) = true := by
    cases hf : s.isFree c taken (base ++ toString i)
    · rcases isFree_eq_false.1 hf with h | h
      · exact absurd (List.mem_append_left _ (List.mem_map_of_mem (f := (·.2)) h)) hout
      · exact absurd (List.mem_append_right _ h) hout
    · rfl
  have hmem : base ++ toString i ∈ (List.range (s.claimed.length + taken.length + 1)).map
      fun i => base ++ toString i :=
    List.mem_map_of_mem (List.mem_range.2 (by simpa [Nat.add_assoc] using hi))
  obtain ⟨x, hx⟩ := Option.isSome_iff_exists.1 (List.find?_isSome.2 ⟨_, hmem, hfree⟩)
  rw [hx, Option.getD_some]
  obtain ⟨hpx, k, hk, hxk, hbefore⟩ := List.find?_eq_some_iff_getElem.1 hx
  refine ⟨k + 1, ?_, hpx, fun j hj => ?_⟩
  · simp only [List.getElem_map, List.getElem_range] at hxk
    rw [← hxk]
    rfl
  · cases j with
    | zero => simpa [candidate] using hbase
    | succ j =>
      have := hbefore j (by omega)
      simpa [candidate] using this

/-! ## One split -/

theorem name_modifyDecl {m : Module} {i : DeclId} {f : Decl → Decl} (hf : ∀ y, (f y).name = y.name)
    (x : DeclId) : ((m.modifyDecl i f).decl x).name = (m.decl x).name := by
  rw [Module.decl_modifyDecl]
  split
  · exact hf _
  · rfl

/-- A split appends the implementation past the arena, names it, and records it and its name;
it keeps the containers, the files, the name of every declaration of the arena, and every
declaration of the arena but the member split, which it makes a decoy. -/
theorem split_spec {s s' : SplitState} {c : ContainerId} {d : DeclId} (h : s.split c d = .ok s') :
    ∃ impl, s'.pending = s.pending ++ [(c, impl)] ∧
      s'.claimed = s.claimed ++ [(c, s.implementationName c d)] ∧
      s'.module.containers = s.module.containers ∧ s'.module.files = s.module.files ∧
      s.module.decls.size ≤ impl ∧ impl < s'.module.decls.size ∧
      s'.module.declName impl = s.implementationName c d ∧
      (d < s.module.decls.size → (s'.module.decl d).isDecoy = true) ∧
      (∀ x < s.module.decls.size, s'.module.declName x = s.module.declName x) ∧
      ∀ x < s.module.decls.size, x ≠ d → s'.module.decl x = s.module.decl x := by
  unfold SplitState.split at h
  cases hcopy : s.module.deepCopy d with
  | error f => rw [hcopy] at h; cases h
  | ok r =>
    obtain ⟨m₁, impl⟩ := r
    rw [hcopy] at h
    cases h
    obtain ⟨hcont, hfiles, himpl, himpl', hframe, -⟩ := Module.deepCopy_retains hcopy
    -- the implementation lies past the arena, so neither edit touches a declaration of the
    -- arena other than the member split
    have hne : ∀ x < s.module.decls.size, impl ≠ x := fun x hx hix =>
      absurd hx (Nat.not_lt.2 (hix ▸ himpl))
    refine ⟨impl, rfl, rfl, hcont, hfiles, himpl, ?_, ?_, fun hd => ?_, fun x hx => ?_,
      fun x hx hxd => ?_⟩
    all_goals dsimp only
    · simpa using himpl'
    · -- the implementation is renamed; making the stub keeps every name
      rw [Module.declName, name_modifyDecl, Module.decl_modifyDecl, if_pos ⟨rfl, himpl'⟩]
      · rfl
      · exact fun _ => rfl
    · have hd₁ : d < m₁.decls.size :=
        Nat.lt_of_lt_of_le hd (Nat.le_of_lt (Nat.lt_of_le_of_lt himpl himpl'))
      rw [Module.decl_modifyDecl, if_pos ⟨rfl, by simpa using hd₁⟩]
      rfl
    · rw [Module.declName, name_modifyDecl, Module.decl_modifyDecl,
        if_neg fun h => hne x hx h.1, hframe x hx]
      · rfl
      · exact fun _ => rfl
    · rw [Module.decl_modifyDecl, if_neg fun h => hxd h.1.symm, Module.decl_modifyDecl,
        if_neg fun h => hne x hx h.1, hframe x hx]

/-- Splitting a member only appends type parameters: those of its copy. -/
theorem split_typeParams {s s' : SplitState} {c : ContainerId} {d : DeclId}
    (h : s.split c d = .ok s') : s.module.typeParams.toList <+: s'.module.typeParams.toList := by
  unfold SplitState.split at h
  cases hcopy : s.module.deepCopy d with
  | error f => rw [hcopy] at h; cases h
  | ok r =>
    obtain ⟨m₁, impl⟩ := r
    rw [hcopy] at h
    cases h
    -- renaming the implementation and making the stub edit declarations only
    show s.module.typeParams.toList <+: m₁.typeParams.toList
    exact Module.deepCopy_typeParams hcopy

/-- Only a declaration of the arena is remapped: the default declaration is neither composable
nor takes a parameter. -/
theorem lt_of_remapped {m : Module} {d : DeclId} (h : remapped m d = true) : d < m.decls.size := by
  by_contra hle
  rw [remapped, shouldBeRemapped, Module.decl_of_size_le (Nat.le_of_not_lt hle)] at h
  have hdefault : (default : Decl).isMarkedComposable = false ∧ (default : Decl).params = [] ∧
      (default : Decl).extension = none := ⟨rfl, rfl, rfl⟩
  simp [hdefault] at h

/-- A candidate for a nonempty base is nonempty. -/
theorem candidate_ne_empty {base : String} (h : base ≠ "") (k : Nat) : candidate base k ≠ "" := by
  cases k with
  | zero => exact h
  | succ i =>
    intro he
    have hlen := congrArg String.length he
    simp only [candidate, String.length_append, String.length_empty] at hlen
    exact h (String.length_eq_zero_iff.1 (by omega))

theorem implBase_ne_empty (name : String) : Names.dexSafe name ++ implSuffix ≠ "" := by
  intro he
  have hlen := congrArg String.length he
  simp only [String.length_append, String.length_empty] at hlen
  have hsuffix : implSuffix.length = 11 := rfl
  omega

/-! ## A whole run -/

/-- A split the pass made: in `container`, the member `stub` was made a stub, and `impl`, named
`name`, is its implementation. -/
structure Split where
  container : ContainerId
  stub : DeclId
  impl : DeclId
  name : String

/-- What a run of the split over `m` has done, given the splits it made, in order: it planned
each implementation and handed out its name; it kept the containers, the files and the names of
`m`'s declarations; each implementation carries its name, and each stub, a member of its
container, is a decoy; no member was split twice; and each name is new in its container. -/
structure Traced (m : Module) (s : SplitState) (t : List Split) : Prop where
  pending_eq : s.pending = t.map fun x => (x.container, x.impl)
  claimed_eq : s.claimed = t.map fun x => (x.container, x.name)
  containers_eq : s.module.containers = m.containers
  files_eq : s.module.files = m.files
  size_ge : m.decls.size ≤ s.module.decls.size
  name_eq : ∀ x < m.decls.size, s.module.declName x = m.declName x
  impl_named : ∀ x ∈ t, x.impl < s.module.decls.size ∧ s.module.declName x.impl = x.name
  stub_member : ∀ x ∈ t, x.stub ∈ (m.container x.container).members
  stub_decoy : ∀ x ∈ t, x.stub < s.module.decls.size ∧ (s.module.decl x.stub).isDecoy = true
  stubs_nodup : (t.map (·.stub)).Nodup
  fresh : ∀ x ∈ t, x.name ∉ m.namesIn x.container
  names_nodup : (t.map fun x => (x.container, x.name)).Nodup
  typeParams_extended : m.typeParams.toList <+: s.module.typeParams.toList

theorem traced_start (m : Module) : Traced m { module := m } [] where
  pending_eq := rfl
  claimed_eq := rfl
  containers_eq := rfl
  files_eq := rfl
  size_ge := Nat.le_refl _
  name_eq _ _ := rfl
  impl_named _ h := nomatch h
  stub_member _ h := nomatch h
  stub_decoy _ h := nomatch h
  stubs_nodup := List.nodup_nil
  fresh _ h := nomatch h
  names_nodup := List.nodup_nil
  typeParams_extended := List.prefix_refl _

namespace Traced

variable {m : Module} {s : SplitState} {t : List Split}

theorem container_eq (h : Traced m s t) (c : ContainerId) : s.module.container c = m.container c := by
  rw [Module.container, Module.container, h.containers_eq]

/-- A nonempty name taken in a container at the start is still taken there: members keep their
names, and a member past the arena had the empty name. -/
theorem mem_namesIn (h : Traced m s t) {c : ContainerId} {name : String} (hne : name ≠ "")
    (hname : name ∈ m.namesIn c) : name ∈ s.module.namesIn c := by
  simp only [Module.namesIn, h.container_eq c, List.mem_append, List.mem_map,
    List.mem_filterMap] at hname ⊢
  rcases hname with ⟨x, hx, rfl⟩ | ⟨k, hk, hkn⟩
  · refine .inl ⟨x, hx, ?_⟩
    by_cases hlt : x < m.decls.size
    · exact h.name_eq x hlt
    · rw [Module.declName, Module.decl_of_size_le (Nat.le_of_not_lt hlt)] at hne
      exact absurd rfl hne
  · refine .inr ⟨k, hk, ?_⟩
    rw [h.container_eq k]
    exact hkn

/-- Splitting a remapped member of a container, neither external nor a decoy, extends the trace
by one split, named by the first free candidate. -/
theorem split (h : Traced m s t) {c : ContainerId} {d : DeclId} {s' : SplitState}
    (hmem : d ∈ (m.container c).members) (hdecoy : (s.module.decl d).isDecoy = false)
    (hremap : remapped s.module d = true) (hs : s.split c d = .ok s') :
    ∃ impl, Traced m s' (t ++ [⟨c, d, impl, s.implementationName c d⟩]) := by
  obtain ⟨impl, hpend, hclaim, hcont, hfiles, himpl, himpl', hname, hstub, hnames, hframe⟩ :=
    split_spec hs
  obtain ⟨k, hk, hfree, -⟩ := implementationName_firstFree s c d
  have hfree' : (c, s.implementationName c d) ∉ s.claimed ∧
      s.implementationName c d ∉ s.module.namesIn c := by
    simpa [SplitState.isFree] using hfree
  have hnonempty : s.implementationName c d ≠ "" :=
    hk ▸ candidate_ne_empty (implBase_ne_empty _) k
  have hgrow : s.module.decls.size ≤ s'.module.decls.size :=
    Nat.le_of_lt (Nat.lt_of_le_of_lt himpl himpl')
  have hd : d < s.module.decls.size := lt_of_remapped hremap
  -- an earlier stub is a decoy, so it is not the member split now
  have hne : ∀ x ∈ t, x.stub ≠ d := fun x hx hxd => by
    have hx' := (h.stub_decoy x hx).2
    rw [hxd, hdecoy] at hx'
    cases hx'
  refine ⟨impl, ⟨?_, ?_, hcont.trans h.containers_eq, hfiles.trans h.files_eq,
    Nat.le_trans h.size_ge hgrow, fun x hx => ?_, fun x hx => ?_, fun x hx => ?_, fun x hx => ?_,
    ?_, fun x hx => ?_, ?_, h.typeParams_extended.trans (split_typeParams hs)⟩⟩
  · rw [hpend, h.pending_eq, List.map_append]
    rfl
  · rw [hclaim, h.claimed_eq, List.map_append]
    rfl
  · rw [hnames x (Nat.lt_of_lt_of_le hx h.size_ge)]
    exact h.name_eq x hx
  · rcases List.mem_append.1 hx with hx | hx
    · obtain ⟨hlt, hxn⟩ := h.impl_named x hx
      exact ⟨Nat.lt_of_lt_of_le hlt hgrow, (hnames _ hlt).trans hxn⟩
    · rw [List.mem_singleton.1 hx]
      exact ⟨himpl', hname⟩
  · rcases List.mem_append.1 hx with hx | hx
    · exact h.stub_member x hx
    · rw [List.mem_singleton.1 hx]
      exact hmem
  · rcases List.mem_append.1 hx with hx | hx
    · obtain ⟨hlt, hdec⟩ := h.stub_decoy x hx
      exact ⟨Nat.lt_of_lt_of_le hlt hgrow, (hframe x.stub hlt (hne x hx)).symm ▸ hdec⟩
    · rw [List.mem_singleton.1 hx]
      exact ⟨Nat.lt_of_lt_of_le hd hgrow, hstub hd⟩
  · rw [List.map_append, List.map_singleton, ← List.concat_eq_append, List.nodup_concat]
    refine ⟨fun hmem' => ?_, h.stubs_nodup⟩
    obtain ⟨x, hx, hxd⟩ := List.mem_map.1 hmem'
    exact hne x hx hxd
  · rcases List.mem_append.1 hx with hx | hx
    · exact h.fresh x hx
    · rw [List.mem_singleton.1 hx]
      exact fun hm => hfree'.2 (h.mem_namesIn hnonempty hm)
  · rw [List.map_append, List.map_singleton, ← List.concat_eq_append, List.nodup_concat]
    exact ⟨h.claimed_eq ▸ hfree'.1, h.names_nodup⟩

end Traced

/-! ## Appending the implementations -/

/-- Appending a member to a container in range lists it last there and changes no other
container. -/
theorem members_addMember (M : Module) {c' : ContainerId} (d : DeclId)
    (hc' : c' < M.containers.size) (c : ContainerId) :
    ((M.addMember c' d).container c).members =
      (M.container c).members ++ if c' = c then [d] else [] := by
  change ((M.modifyContainer c' fun k => { k with members := k.members ++ [d] }).container c).members
    = _
  rw [Module.container_modifyContainer]
  by_cases hcc : c' = c
  · subst hcc
    rw [if_pos ⟨rfl, hc'⟩, if_pos rfl]
  · rw [if_neg fun h => hcc h.1, if_neg hcc, List.append_nil]

theorem containers_size_addMember (M : Module) (c : ContainerId) (d : DeclId) :
    (M.addMember c d).containers.size = M.containers.size :=
  Array.size_modify

/-- Appending planned implementations, each to a container in range, lists each container's
implementations after its members, in order. -/
theorem members_foldl_addMember : ∀ (ps : List (ContainerId × DeclId)) (M : Module),
    (∀ p ∈ ps, p.1 < M.containers.size) → ∀ c,
    ((ps.foldl (fun m p => m.addMember p.1 p.2) M).container c).members =
      (M.container c).members ++ (ps.filter (·.1 = c)).map (·.2)
  | [], M, _, c => by simp
  | p :: ps, M, hps, c => by
    have hp := hps p List.mem_cons_self
    rw [List.foldl_cons, members_foldl_addMember ps _ (fun q hq => by
      rw [containers_size_addMember]
      exact hps q (List.mem_cons_of_mem _ hq)), members_addMember M p.2 hp]
    by_cases hpc : p.1 = c
    · simp [hpc]
    · simp [hpc]

/-! ## The run -/

/-- A run of the split is traced: the module it returns appends the planned implementations to
their containers and recomputes the parents, and it counts the names handed out. -/
theorem splitModule_traced {m m' : Module} {n : Nat} (h : splitModule m = .ok (m', n)) :
    ∃ (s : SplitState) (t : List Split), Traced m s t ∧ n = s.claimed.length ∧
      m' = (s.pending.foldl (fun m p => m.addMember p.1 p.2) s.module).patchParents := by
  unfold splitModule at h
  simp only [bind, Except.bind] at h
  split at h
  · cases h
  rename_i s hfold
  cases h
  suffices hs : ∃ t, Traced m s t by
    obtain ⟨t, ht⟩ := hs
    exact ⟨s, t, ht, rfl, rfl⟩
  -- every container, then every member of it, extends the trace or leaves the state
  refine foldlM_ok_induction_mem (fun s => ∃ t, Traced m s t) _ (fun s₁ c s₂ _ hstep ht₁ => ?_)
    _ _ hfold ⟨[], traced_start m⟩
  obtain ⟨t₁, ht₁⟩ := ht₁
  refine foldlM_ok_induction_mem (fun s => ∃ t, Traced m s t) _
    (fun s₃ d s₄ hd hsplit ht₃ => ?_) _ _ hstep ⟨t₁, ht₁⟩
  obtain ⟨t₃, ht₃⟩ := ht₃
  rw [ht₁.container_eq] at hd
  split at hsplit
  · cases hsplit
    exact ⟨t₃, ht₃⟩
  rename_i hguard
  split at hsplit
  · have hdecoy : (s₃.module.decl d).isDecoy = false := by
      simp only [Bool.or_eq_true, not_or] at hguard
      simpa using hguard.2
    obtain ⟨impl, ht₄⟩ := ht₃.split hd hdecoy ‹_› hsplit
    exact ⟨_, ht₄⟩
  · cases hsplit
    exact ⟨t₃, ht₃⟩

/-- Decoy implementations are named by the first free candidate, and their names are new and
distinct in each container. Each split names the implementation of the member it splits by the
first of `N$composable`, `N$composable0`, `N$composable1`, … that is neither taken by a member or
class of the container nor handed out there before, and records that name. Over a whole run,
the splits made are listed by `t`, in order:
* the count the run returns is the number of splits, and no member is split twice;
* the names handed out in one container are pairwise distinct;
* every container lists its members as before, then the implementations planned for it;
* each implementation carries its name, which no member or class of its container had before
  the run, and each member split is a member of its container and a decoy afterwards. -/
theorem implementationNames_fresh :
    (∀ (s s' : SplitState) (c : ContainerId) (d : DeclId), s.split c d = .ok s' →
      s'.claimed = s.claimed ++ [(c, s.implementationName c d)] ∧
      FirstFree (s.isFree c (s.module.namesIn c))
        (Names.dexSafe (s.module.declName d) ++ implSuffix) (s.implementationName c d)) ∧
    ∀ (m m' : Module) (n : Nat), splitModule m = .ok (m', n) → ∃ t : List Split,
      n = t.length ∧ (t.map (·.stub)).Nodup ∧ (t.map fun x => (x.container, x.name)).Nodup ∧
      (∀ c, (m'.container c).members =
        (m.container c).members ++ (t.filter (·.container = c)).map (·.impl)) ∧
      ∀ x ∈ t, m'.declName x.impl = x.name ∧ x.name ∉ m.namesIn x.container ∧
        x.stub ∈ (m.container x.container).members ∧ (m'.decl x.stub).isDecoy = true := by
  refine ⟨fun s s' c d hs => ⟨?_, implementationName_firstFree s c d⟩, fun m m' n h => ?_⟩
  · obtain ⟨impl, -, hclaim, -⟩ := split_spec hs
    exact hclaim
  obtain ⟨s, t, ht, rfl, rfl⟩ := splitModule_traced h
  -- appending the implementations and recomputing the parents only reparents
  have hrep : s.module.Reparented
      (s.pending.foldl (fun m p => m.addMember p.1 p.2) s.module).patchParents :=
    (Module.Agrees.foldl (fun _ (p : ContainerId × DeclId) => Module.reparented_addMember p.1 p.2)
      _ _).trans Module.reparented_patchParents
  -- a container with a member split lies in range
  have hin : ∀ p ∈ s.pending, p.1 < s.module.containers.size := by
    rw [ht.pending_eq, ht.containers_eq]
    intro p hp
    obtain ⟨x, hx, rfl⟩ := List.mem_map.1 hp
    have hmem := ht.stub_member x hx
    by_contra hc
    rw [Module.container, Array.getElem?_eq_none (Nat.le_of_not_lt hc)] at hmem
    exact absurd hmem List.not_mem_nil
  refine ⟨t, by rw [ht.claimed_eq, List.length_map], ht.stubs_nodup, ht.names_nodup,
    fun c => ?_, fun x hx => ⟨?_, ht.fresh x hx, ht.stub_member x hx, ?_⟩⟩
  · rw [Module.container, Module.containers_patchParents, ← Module.container,
      members_foldl_addMember _ _ hin, ht.container_eq, ht.pending_eq, List.filter_map,
      List.map_map]
    rfl
  · rw [Module.declName, hrep.congr (f := Decl.name) (fun _ => rfl)]
    exact (ht.impl_named x hx).2
  · rw [hrep.congr (f := Decl.isDecoy) (fun _ => rfl)]
    exact (ht.stub_decoy x hx).2

/-- A file holding `Card$composable` and two composable functions named `Card`, the second
taking a parameter. -/
def cardModule : Module :=
  { name := "app",
    decls := #[
      { name := "Card$composable", kind := .function, parent := .container 0 },
      { name := "Card", kind := .function, parent := .container 0, annotations := [.composable] },
      { name := "Card", kind := .function, parent := .container 0, annotations := [.composable],
        params := [{ value := 0, name := "elevation", ty := Ty.int }] }],
    containers := #[{ kind := .file "", members := [0, 1, 2] }],
    files := [0], values := #["elevation"] }

/-- Both functions named `Card` are split: `Card$composable` is taken, so their implementations
are named `Card$composable0` and `Card$composable1` and appended in that order. -/
theorem cardModule_implementations_suffixed :
    ∃ m', splitModule cardModule = .ok (m', 2) ∧
      (m'.container 0).members.map m'.declName =
        ["Card$composable", "Card", "Card", "Card$composable0", "Card$composable1"] ∧
      ∃ t : List Split, t.length = 2 ∧ ∀ x ∈ t, x.name ∉ cardModule.namesIn x.container := by
  have hrun : (match splitModule cardModule with
      | .ok (m', n) => n == 2 && (m'.container 0).members.map m'.declName ==
          ["Card$composable", "Card", "Card", "Card$composable0", "Card$composable1"]
      | .error _ => false) = true := by
    decide +kernel
  cases hr : splitModule cardModule with
  | error e => rw [hr] at hrun; cases hrun
  | ok r =>
    obtain ⟨m', n⟩ := r
    rw [hr] at hrun
    simp only [Bool.and_eq_true, beq_iff_eq] at hrun
    obtain ⟨rfl, hnames⟩ := hrun
    obtain ⟨t, hn, -, -, -, ht⟩ := implementationNames_fresh.2 _ _ _ hr
    exact ⟨m', rfl, hnames, t, hn.symm, fun x hx => (ht x hx).2.1⟩

end Decoy

end ComposeLowering
