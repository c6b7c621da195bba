import ComposeLowering.Proofs.Decoy.Split
import ComposeLowering.Proofs.Decoy.Eligible
import ComposeLowering.Proofs.Parents

/-!
# Stubs and implementations

A split leaves the member in place as a stub and appends a copy of it as the implementation.
`Decl.StubOf x d name y` says what the stub `y` of the member `d`, declared as `x`, keeps and
loses; `Decl.ImplOf x name y` says how the implementation `y` differs from `x`. Both ignore the
parent, which the split recomputes at the end. The implementation is, exactly, the split's edit
`implementationDecl` of what `Module.deepCopy` made of the member in the module as the split
found it, which holds the member and everything nested in it as they were.

A whole run of the split keeps `Shaped m s t` along its trace `t`: every member it split has
these two shapes, every other declaration of the arena is untouched, and only the stubs are
decoys. The copies the split appends carry annotations of declarations nested in a member, and
no member is nested anywhere, so no copy is a decoy either (`Module.deepCopy_marks`).

Which members are split is decided on the module as it stands when the member is visited. A
member split before is a decoy and is not visited again, and splitting keeps, for every other
member, whether it gets a decoy (`remapped_eq_of_splits`). So the members split are exactly the
visited members that are not external and get a decoy in the module the run started from,
each at its first visit, in visiting order (`Visited`).
-/

namespace ComposeLowering

/-- `y` is the stub that the member `d`, declared as `x`, becomes when its implementation is
named `name`: the decoy annotation replaces every annotation, a parameter loses its default
unless `x` is a constructor, and a body, which a constructor always gets, returns the decoy
intrinsic applied to `x`'s name. Everything else but the parent is `x`'s. -/
structure Decl.StubOf (x : Decl) (d : DeclId) (name : String) (y : Decl) : Prop where
  annotations_eq : y.annotations = [.decoy name []]
  params_eq : y.params = if x.kind == .constructor then x.params else x.params.map Param.undefaulted
  body_eq : y.body =
    if x.body.isSome || x.kind == .constructor then some (Decoy.stubBody d x.name) else x.body
  rest : { y with
    annotations := x.annotations, params := x.params, body := x.body, parent := x.parent } = x

/-- `y` is the implementation named `name` of a member declared as `x`: a copy of `x` renamed
`name`, defined rather than a lambda or external, an accessor made a function, each parameter
named by the safe form of its name stripped of leading `$`, and marked as the implementation of
`name` after `x`'s annotations. Its parameters keep their origins and have a default exactly
where `x`'s do, it has a body exactly where `x` has one, and everything else but the parent is
`x`'s. -/
structure Decl.ImplOf (x : Decl) (name : String) (y : Decl) : Prop where
  name_eq : y.name = name
  origin_eq : y.origin = .defined
  kind_eq : y.kind = match x.kind with
    | .getter _ | .setter _ => .function
    | k => k
  annotations_eq : y.annotations = x.annotations ++ [.decoyImpl name]
  params : List.Forall₂ (fun p q => q.name = Decoy.trimDollars (Names.dexSafe p.name) ∧
    q.origin = p.origin ∧ q.default.isSome = p.default.isSome) x.params y.params
  body : y.body.isSome = x.body.isSome
  rest : { y with
    name := x.name, origin := x.origin, kind := x.kind, annotations := x.annotations,
    typeParams := x.typeParams, dispatch := x.dispatch, extension := x.extension,
    params := x.params, returns := x.returns, inlineArgument := x.inlineArgument,
    parent := x.parent, body := x.body } = x

namespace Decl

variable {x y y' : Decl} {d : DeclId} {name : String}

/-- A stub is one whatever its parent. -/
theorem StubOf.of_unparented (h : x.StubOf d name y) (hy : y'.unparented = y.unparented) :
    x.StubOf d name y' where
  annotations_eq := (congrArg Decl.annotations hy).trans h.annotations_eq
  params_eq := (congrArg Decl.params hy).trans h.params_eq
  body_eq := (congrArg Decl.body hy).trans h.body_eq
  rest := (congrArg (fun z : Decl => { z with
    annotations := x.annotations, params := x.params, body := x.body, parent := x.parent })
      hy).trans h.rest

/-- An implementation is one whatever its parent. -/
theorem ImplOf.of_unparented (h : x.ImplOf name y) (hy : y'.unparented = y.unparented) :
    x.ImplOf name y' where
  name_eq := (congrArg Decl.name hy).trans h.name_eq
  origin_eq := (congrArg Decl.origin hy).trans h.origin_eq
  kind_eq := (congrArg Decl.kind hy).trans h.kind_eq
  annotations_eq := (congrArg Decl.annotations hy).trans h.annotations_eq
  params := (congrArg Decl.params hy) ▸ h.params
  body := (congrArg (fun z : Decl => z.body.isSome) hy).trans h.body
  rest := (congrArg (fun z : Decl => { z with
    name := x.name, origin := x.origin, kind := x.kind, annotations := x.annotations,
    typeParams := x.typeParams, dispatch := x.dispatch, extension := x.extension,
    params := x.params, returns := x.returns, inlineArgument := x.inlineArgument,
    parent := x.parent, body := x.body }) hy).trans h.rest

/-- A stub holds no declaration its member did not hold: its defaults are the member's or
gone, and its body is the member's or holds nothing. -/
theorem StubOf.nestedFns_subset (h : x.StubOf d name y) : ∀ w ∈ y.nestedFns, w ∈ x.nestedFns := by
  intro w hw
  rw [Decl.nestedFns, h.params_eq, h.body_eq] at hw
  rw [Decl.nestedFns]
  simp only [List.mem_append, List.mem_flatMap, List.mem_filterMap] at hw ⊢
  rcases hw with ⟨e, ⟨p, hp, hpe⟩, hwe⟩ | hw
  · split at hp
    · exact .inl ⟨e, ⟨p, hp, hpe⟩, hwe⟩
    · obtain ⟨q, -, rfl⟩ := List.mem_map.1 hp
      cases hpe
  · split at hw
    · simp [Decoy.stubBody, Expr.nestedFns_eq, Expr.fnDecl?, Expr.children] at hw
    · exact .inr hw

end Decl

namespace Decoy

/-- Annotations none of which marks a decoy stub. -/
def NoDecoy (l : List Annotation) : Prop := ∀ a ∈ l, ∀ t sig, a ≠ .decoy t sig

theorem isDecoy_eq_false_iff {x : Decl} : x.isDecoy = false ↔ NoDecoy x.annotations := by
  simp only [Decl.isDecoy, Decl.decoy?, Option.isSome_eq_false_iff, Option.isNone_iff_eq_none,
    List.findSome?_eq_none_iff, NoDecoy]
  refine forall₂_congr fun a _ => ?_
  cases a <;> simp

theorem noDecoy_append_decoyImpl {l : List Annotation} (h : NoDecoy l) (name : String) :
    NoDecoy (l ++ [.decoyImpl name]) := by
  intro a ha t sig
  rcases List.mem_append.1 ha with ha | ha
  · exact h a ha t sig
  · rw [List.mem_singleton.1 ha]
    exact fun h' => by cases h'

/-! ## One split -/

/-- A split of the member `d` of the arena leaves its stub in place and plans an implementation
past the arena; a declaration the copy appended holds only appended ones, and carries no decoy
annotation when neither `d` nor anything nested in a declaration did. -/
theorem split_shape {s s' : SplitState} {c : ContainerId} {d : DeclId}
    (hd : d < s.module.decls.size) (h : s.split c d = .ok s') :
    ∃ impl, s'.pending = s.pending ++ [(c, impl)] ∧
      s.module.decls.size ≤ impl ∧ impl < s'.module.decls.size ∧
      (∀ x < s.module.decls.size, x ≠ d → s'.module.decl x = s.module.decl x) ∧
      (s.module.decl d).StubOf d (s.implementationName c d) (s'.module.decl d) ∧
      (s.module.decl d).ImplOf (s.implementationName c d) (s'.module.decl impl) ∧
      (∃ m₁, s.module.deepCopy d = .ok (m₁, impl) ∧
        s'.module.decl impl = implementationDecl (s.implementationName c d) (m₁.decl impl)) ∧
      (∀ z, s.module.decls.size ≤ z → ∀ y ∈ s'.module.nestedDecls z, s.module.decls.size ≤ y) ∧
      ((∀ z y, s.module.Nests z y → NoDecoy (s.module.decl y).annotations) →
        NoDecoy (s.module.decl d).annotations →
        ∀ z, s.module.decls.size ≤ z → z ≠ impl → NoDecoy (s'.module.decl z).annotations) := by
  unfold SplitState.split at h
  cases hcopy : s.module.deepCopy d with
  | error f => rw [hcopy] at h; cases h
  | ok r =>
    obtain ⟨m₁, impl⟩ := r
    rw [hcopy] at h
    cases h
    obtain ⟨-, -, himpl, himpl', hframe, hfresh⟩ := Module.deepCopy_retains hcopy
    have hcopyOf := Module.deepCopy_copyOf hcopy
    have hd₁ : d < m₁.decls.size :=
      Nat.lt_of_lt_of_le hd (Nat.le_of_lt (Nat.lt_of_le_of_lt himpl himpl'))
    have hne : impl ≠ d := fun h' => absurd hd (Nat.not_lt.2 (h' ▸ himpl))
    -- each of the two edits leaves every declaration but its own as it was
    have hother : ∀ (M : Module) (i z : DeclId) (f : Decl → Decl), i ≠ z →
        (M.modifyDecl i f).decl z = M.decl z :=
      fun M i z f hiz => by rw [Module.decl_modifyDecl, if_neg fun h => hiz h.1]
    refine ⟨impl, rfl, himpl, by simpa using himpl', fun x hx hxd => ?_, ?_, ?_,
      ⟨m₁, rfl, ?_⟩, fun z hz w hw => ?_, fun hnest hroot z hz hzi => ?_⟩
    · rw [hother _ _ _ _ (Ne.symm hxd),
        hother _ _ _ _ fun h : impl = x => absurd hx (Nat.not_lt.2 (h ▸ himpl)), hframe x hx]
    · -- the stub is made from the member as it was
      rw [Module.decl_modifyDecl, if_pos ⟨rfl, by simpa using hd₁⟩]
      simp only [Module.declName, hother _ _ _ _ hne, hframe d hd]
      exact ⟨rfl, rfl, rfl, rfl⟩
    · -- the implementation is the copy, edited
      rw [hother _ _ _ _ hne.symm, Module.decl_modifyDecl, if_pos ⟨rfl, himpl'⟩, implementationDecl]
      generalize s.module.decl d = x at hcopyOf ⊢
      generalize m₁.decl impl = y at hcopyOf ⊢
      obtain ⟨hrest, hparams, hbody⟩ := hcopyOf
      have hkind : y.kind = x.kind := (congrArg Decl.kind hrest :)
      have hann : y.annotations = x.annotations := (congrArg Decl.annotations hrest :)
      refine ⟨rfl, rfl, ?_, by rw [hann], ?_, hbody, ?_⟩
      · show (match y.kind with
          | .getter _ | .setter _ => DeclKind.function
          | k => k) = _
        rw [hkind]
      · rw [List.forall₂_map_right_iff]
        exact hparams.imp fun p q h => ⟨by rw [h.1], h.2.1, h.2.2⟩
      · rw [← hrest]
    · rw [hother _ _ _ _ hne.symm, Module.decl_modifyDecl, if_pos ⟨rfl, himpl'⟩]
    · -- what the edits appended holds what the copy appended
      have hz' : d ≠ z := fun h => absurd hd (Nat.not_lt.2 (h ▸ hz))
      rw [Module.nestedDecls, hother _ _ _ _ hz'] at hw
      by_cases hzi : impl = z
      · subst hzi
        rw [Module.decl_modifyDecl, if_pos ⟨rfl, himpl'⟩] at hw
        -- renaming the parameters keeps their defaults
        have hw' : w ∈ (m₁.decl impl).nestedFns := by
          simpa only [implementationDecl, Decl.nestedFns, List.filterMap_map, Function.comp_def]
            using hw
        exact hfresh impl hz w hw'
      · rw [hother _ _ _ _ hzi] at hw
        exact hfresh z hz w hw
    · have hz' : d ≠ z := fun h => absurd hd (Nat.not_lt.2 (h ▸ hz))
      rw [hother _ _ _ _ hz', hother _ _ _ _ (Ne.symm hzi)]
      exact Module.deepCopy_marks (B := NoDecoy) (fun _ h => absurd h List.not_mem_nil) hnest hroot
        hcopy z hz

/-! ## The run -/

/-- The members the split visits, in order, each with its container: the members of every
container, the containers in order. -/
def visits (m : Module) : List (ContainerId × DeclId) :=
  m.containersInOrder.flatMap fun c => (m.container c).members.map (c, ·)

/-- Whether the split makes a decoy of a member, asked of the module it starts from: the member
is not external and gets a decoy. -/
def eligible (m : Module) (d : DeclId) : Bool :=
  (m.decl d).kind != .externalSource && remapped m d

theorem noDecoy_of_unmarked {l : List Annotation} (h : ∀ a ∈ l, a.isDecoyMark = false) :
    NoDecoy l := by
  intro a ha t sig hat
  have hmark := h a ha
  rw [hat] at hmark
  cases hmark

/-- What a run of the split over `m` has made of it, given its trace `t`, besides what `Traced`
says: each member split is the stub of itself and has its implementation, as their shapes say,
the implementation made from a deep copy of the member taken before any later split; every other
declaration of `m`'s arena is untouched; the implementations lie past `m`'s arena,
in increasing order, and what was appended holds only appended declarations; only the stubs are
decoys; and every member split is eligible in `m`. -/
structure Shaped (m : Module) (s : SplitState) (t : List Split) : Prop extends Traced m s t where
  untouched : ∀ y < m.decls.size, y ∉ t.map (·.stub) → s.module.decl y = m.decl y
  stub_of : ∀ x ∈ t, (m.decl x.stub).StubOf x.stub x.name (s.module.decl x.stub)
  impl_of : ∀ x ∈ t, (m.decl x.stub).ImplOf x.name (s.module.decl x.impl)
  impl_copy : ∀ x ∈ t, ∃ M M' : Module, M.deepCopy x.stub = .ok (M', x.impl) ∧
    m.decls.size ≤ M.decls.size ∧
    (∀ y < m.decls.size, y ∉ t.map (·.stub) ∨ y = x.stub → M.decl y = m.decl y) ∧
    s.module.decl x.impl = implementationDecl x.name (M'.decl x.impl)
  impl_ge : ∀ x ∈ t, m.decls.size ≤ x.impl
  impls_sorted : (t.map (·.impl)).Pairwise (· < ·)
  nests_fresh : ∀ z, m.decls.size ≤ z → ∀ y ∈ s.module.nestedDecls z, m.decls.size ≤ y
  only_stubs : ∀ y, y ∉ t.map (·.stub) → (s.module.decl y).isDecoy = false
  eligible_of : ∀ x ∈ t, eligible m x.stub = true

variable {m : Module} {s : SplitState} {t : List Split}

theorem shaped_start (hwf : m.WellFormed) : Shaped m { module := m } [] where
  toTraced := traced_start m
  untouched _ _ _ := rfl
  stub_of _ h := nomatch h
  impl_of _ h := nomatch h
  impl_copy _ h := nomatch h
  impl_ge _ h := nomatch h
  impls_sorted := List.Pairwise.nil
  nests_fresh z hz y hy := by
    rw [Module.nestedDecls, Module.decl_of_size_le hz] at hy
    cases hy
  only_stubs y _ := isDecoy_eq_false_iff.2 (noDecoy_of_unmarked (hwf.no_decoy_marks y))
  eligible_of _ h := nomatch h

namespace Shaped

theorem stub_lt (harena : m.InArena) (hS : Shaped m s t) : ∀ x ∈ t, x.stub < m.decls.size :=
  fun x hx => harena.members_lt _ _ (hS.stub_member x hx)

theorem isDecoy_of_mem (hS : Shaped m s t) {y : DeclId} (hy : y ∈ t.map (·.stub)) :
    (s.module.decl y).isDecoy = true := by
  obtain ⟨x, hx, rfl⟩ := List.mem_map.1 hy
  exact (hS.stub_decoy x hx).2

/-- No member of `m` is nested anywhere: a declaration of `m`'s arena holds what it held in `m`,
or less for a stub, and `m` nests no member; an appended one holds only appended declarations. -/
theorem not_nested_member (hwf : m.WellFormed) (harena : m.InArena) (hS : Shaped m s t)
    {c : ContainerId} {y : DeclId} (hmem : y ∈ (m.container c).members) (z : DeclId) :
    y ∉ s.module.nestedDecls z := by
  intro hy
  by_cases hz : z < m.decls.size
  · have hy' : y ∈ m.nestedDecls z := by
      by_cases hzt : z ∈ t.map (·.stub)
      · obtain ⟨x', hx', rfl⟩ := List.mem_map.1 hzt
        exact (hS.stub_of x' hx').nestedFns_subset _ hy
      · rw [Module.nestedDecls, hS.untouched z hz hzt] at hy
        exact hy
    exact hwf.not_mem_nestedDecls hmem z hy'
  · exact absurd (harena.members_lt c y hmem)
      (Nat.not_lt.2 (hS.nests_fresh z (Nat.le_of_not_lt hz) _ hy))

/-- No stub is nested anywhere, being a member. -/
theorem not_nested_stub (hwf : m.WellFormed) (harena : m.InArena) (hS : Shaped m s t) :
    ∀ z, ∀ y ∈ s.module.nestedDecls z, y ∉ t.map (·.stub) := by
  intro z y hy hyt
  obtain ⟨x, hx, rfl⟩ := List.mem_map.1 hyt
  exact hS.not_nested_member hwf harena (hS.stub_member x hx) z hy

/-- A member not split yet gets a decoy in the run's module exactly when it does in `m`. -/
theorem remapped_eq (hwf : m.WellFormed) (harena : m.InArena) (hover : m.OverridesInArena)
    (hS : Shaped m s t) {d : DeclId} (hd : d < m.decls.size) (hdt : d ∉ t.map (·.stub)) :
    remapped s.module d = remapped m d := by
  refine remapped_eq_of_splits hwf.overrides_acyclic hover (S := fun y => y ∈ t.map (·.stub))
    hS.size_ge (fun y hy hyt => hS.untouched y hy hyt) (fun y hy => ?_) hd hdt
  obtain ⟨x, hx, rfl⟩ := List.mem_map.1 hy
  have helig := hS.eligible_of x hx
  simp only [eligible, Bool.and_eq_true] at helig
  exact ⟨hS.stub_lt harena x hx, (hS.stub_decoy x hx).2, helig.2⟩

/-- Splitting a member of a container, eligible in `m`, extends the trace by one split, with its
stub and implementation shaped, and keeps everything else. -/
theorem split (hwf : m.WellFormed) (harena : m.InArena) (hS : Shaped m s t) {c : ContainerId}
    {d : DeclId} {s' : SplitState} (hmem : d ∈ (m.container c).members)
    (hdecoy : (s.module.decl d).isDecoy = false) (hremap : remapped s.module d = true)
    (helig : eligible m d = true) (hs : s.split c d = .ok s') :
    ∃ impl, Shaped m s' (t ++ [⟨c, d, impl, s.implementationName c d⟩]) := by
  obtain ⟨impl, htr⟩ := hS.toTraced.split hmem hdecoy hremap hs
  have hd : d < m.decls.size := harena.members_lt c d hmem
  obtain ⟨impl', hpend, himpl, himpl', hframe, hstub, himplOf, ⟨m₁, hcopy, hcopied⟩, hfresh,
    hmarks⟩ := split_shape (Nat.lt_of_lt_of_le hd hS.size_ge) hs
  -- the trace and the split plan the same implementation
  have himpl_eq : impl' = impl := by
    have hp := htr.pending_eq
    rw [hpend, hS.pending_eq, List.map_append] at hp
    simpa using hp
  subst himpl_eq
  have hdt : d ∉ t.map (·.stub) := fun h => by
    rw [hS.isDecoy_of_mem h] at hdecoy
    cases hdecoy
  have hxd : s.module.decl d = m.decl d := hS.untouched d hd hdt
  have hold : ∀ x ∈ t, x.impl < s.module.decls.size := fun x hx => (hS.impl_named x hx).1
  refine ⟨impl', htr, fun y hy hyt => ?_, fun x hx => ?_, fun x hx => ?_, fun x hx => ?_,
    fun x hx => ?_, ?_, fun z hz w hw => ?_, fun y hyt => ?_, fun x hx => ?_⟩
  · simp only [List.map_append, List.map_singleton, List.mem_append, List.mem_singleton,
      not_or] at hyt
    rw [hframe y (Nat.lt_of_lt_of_le hy hS.size_ge) hyt.2, hS.untouched y hy hyt.1]
  · rcases List.mem_append.1 hx with hx | hx
    · have hne : x.stub ≠ d := fun h => hdt (h ▸ List.mem_map_of_mem hx)
      rw [hframe _ (hS.stub_decoy x hx).1 hne]
      exact hS.stub_of x hx
    · rw [List.mem_singleton.1 hx, ← hxd]
      exact hstub
  · rcases List.mem_append.1 hx with hx | hx
    · have hne : x.impl ≠ d := fun h => absurd (hS.impl_ge x hx) (Nat.not_le.2 (h ▸ hd))
      rw [hframe _ (hold x hx) hne]
      exact hS.impl_of x hx
    · rw [List.mem_singleton.1 hx, ← hxd]
      exact himplOf
  · -- a module at an earlier split agrees with `m` wherever the later trace does
    have hsub : ∀ y, y ∉ (t ++ [(⟨c, d, impl', s.implementationName c d⟩ : Split)]).map (·.stub) →
        y ∉ t.map (·.stub) := fun y hy h => hy (by rw [List.map_append]; exact List.mem_append_left _ h)
    rcases List.mem_append.1 hx with hx | hx
    · obtain ⟨M, M', hM, hsize, hagree, hdecl⟩ := hS.impl_copy x hx
      have hne : x.impl ≠ d := fun h => absurd (hS.impl_ge x hx) (Nat.not_le.2 (h ▸ hd))
      refine ⟨M, M', hM, hsize, fun y hy hyt => hagree y hy (hyt.imp_left (hsub y)), ?_⟩
      rw [hframe _ (hold x hx) hne]
      exact hdecl
    · rw [List.mem_singleton.1 hx]
      refine ⟨s.module, m₁, hcopy, hS.size_ge, fun y hy hyt => ?_, hcopied⟩
      rcases hyt with hyt | rfl
      · exact hS.untouched y hy (hsub y hyt)
      · exact hxd
  · rcases List.mem_append.1 hx with hx | hx
    · exact hS.impl_ge x hx
    · rw [List.mem_singleton.1 hx]
      exact Nat.le_trans hS.size_ge himpl
  · rw [List.map_append, List.map_singleton, List.pairwise_append]
    refine ⟨hS.impls_sorted, List.pairwise_singleton _ _, fun a ha b hb => ?_⟩
    obtain ⟨x, hx, rfl⟩ := List.mem_map.1 ha
    rw [List.mem_singleton.1 hb]
    exact Nat.lt_of_lt_of_le (hold x hx) himpl
  · by_cases hz' : s.module.decls.size ≤ z
    · exact Nat.le_trans hS.size_ge (hfresh z hz' w hw)
    · have hzd : z ≠ d := fun h => absurd hd (Nat.not_lt.2 (h ▸ hz))
      rw [Module.nestedDecls, hframe z (Nat.lt_of_not_le hz') hzd] at hw
      exact hS.nests_fresh z hz w hw
  · simp only [List.map_append, List.map_singleton, List.mem_append, List.mem_singleton,
      not_or] at hyt
    by_cases hy : y < s.module.decls.size
    · rw [hframe y hy hyt.2]
      exact hS.only_stubs y hyt.1
    · by_cases hyi : y = impl'
      · subst hyi
        rw [isDecoy_eq_false_iff, himplOf.annotations_eq]
        exact noDecoy_append_decoyImpl
          (isDecoy_eq_false_iff.1 (hxd ▸ hdecoy)) _
      · -- a copy of something nested in a declaration, which no stub is
        refine isDecoy_eq_false_iff.2 (hmarks (fun z w hzw => ?_) (isDecoy_eq_false_iff.1 hdecoy)
          y (Nat.le_of_not_lt hy) hyi)
        exact isDecoy_eq_false_iff.1 (hS.only_stubs w (hS.not_nested_stub hwf harena z w hzw))
  · rcases List.mem_append.1 hx with hx | hx
    · exact hS.eligible_of x hx
    · rw [List.mem_singleton.1 hx]
      exact helig

end Shaped

/-- The visits made so far, `vs`, and the splits made: the splits, in order, are visits, and
every visited member that is eligible in `m` was split. -/
structure Visited (m : Module) (vs : List (ContainerId × DeclId)) (t : List Split) : Prop where
  sublist : (t.map fun x => (x.container, x.stub)).Sublist vs
  complete : ∀ p ∈ vs, eligible m p.2 = true → p.2 ∈ t.map (·.stub)

namespace Visited

variable {vs : List (ContainerId × DeclId)}

theorem skip (h : Visited m vs t) {c : ContainerId} {d : DeclId}
    (hd : eligible m d = true → d ∈ t.map (·.stub)) : Visited m (vs ++ [(c, d)]) t where
  sublist := h.sublist.trans (List.sublist_append_left _ _)
  complete p hp he := by
    rcases List.mem_append.1 hp with hp | hp
    · exact h.complete p hp he
    · rw [List.mem_singleton.1 hp] at he ⊢
      exact hd he

theorem split (h : Visited m vs t) (c : ContainerId) (d impl : DeclId) (name : String) :
    Visited m (vs ++ [(c, d)]) (t ++ [⟨c, d, impl, name⟩]) where
  sublist := by
    rw [List.map_append]
    exact h.sublist.append (List.Sublist.refl _)
  complete p hp he := by
    rw [List.map_append]
    rcases List.mem_append.1 hp with hp | hp
    · exact List.mem_append_left _ (h.complete p hp he)
    · rw [List.mem_singleton.1 hp]
      exact List.mem_append_right _ (List.mem_singleton_self _)

end Visited

/-- One visit of the split: a member split before is a decoy and is skipped; any other is as it
was in `m` and gets a decoy as it did there, so it is split exactly when it is eligible in `m`. -/
theorem Shaped.visit (hwf : m.WellFormed) (harena : m.InArena) (hover : m.OverridesInArena)
    {vs : List (ContainerId × DeclId)} (hS : Shaped m s t) (hV : Visited m vs t) {c : ContainerId}
    {d : DeclId} {s' : SplitState} (hmem : d ∈ (m.container c).members)
    (hstep : (if (s.module.decl d).kind == .externalSource || (s.module.decl d).isDecoy then pure s
      else if remapped s.module d then s.split c d else pure s) = .ok s') :
    ∃ t', Shaped m s' t' ∧ Visited m (vs ++ [(c, d)]) t' := by
  have hd : d < m.decls.size := harena.members_lt c d hmem
  have hfresh : d ∉ t.map (·.stub) →
      s.module.decl d = m.decl d ∧ remapped s.module d = remapped m d :=
    fun hdt => ⟨hS.untouched d hd hdt, hS.remapped_eq hwf harena hover hd hdt⟩
  split at hstep
  · -- external or a decoy: an eligible member is a stub already
    rename_i hguard
    cases hstep
    refine ⟨t, hS, hV.skip fun helig => ?_⟩
    by_contra hdt
    rw [hS.only_stubs d hdt, Bool.or_false, (hfresh hdt).1, beq_iff_eq] at hguard
    simp only [eligible, hguard, bne_self_eq_false, Bool.false_and] at helig
    cases helig
  · rename_i hguard
    simp only [Bool.or_eq_true, not_or, Bool.not_eq_true] at hguard
    split at hstep
    · rename_i hrem
      have hdt : d ∉ t.map (·.stub) := fun h => by
        rw [hS.isDecoy_of_mem h] at hguard
        cases hguard.2
      obtain ⟨hx, hr⟩ := hfresh hdt
      have helig : eligible m d = true := by
        rw [eligible, ← hx, ← hr, hrem, Bool.and_true, bne, hguard.1]
        rfl
      obtain ⟨impl, hS'⟩ := hS.split hwf harena hmem hguard.2 hrem helig hstep
      exact ⟨_, hS', hV.split c d impl _⟩
    · -- not remapped: it is not eligible, or a stub already
      rename_i hrem
      cases hstep
      refine ⟨t, hS, hV.skip fun helig => ?_⟩
      by_contra hdt
      simp only [eligible, Bool.and_eq_true] at helig
      exact hrem ((hfresh hdt).2 ▸ helig.2)

/-- A left fold in `Except` keeps a property of the elements folded so far and the value, when
every successful step on the next element does. -/
theorem foldlM_ok_induction_prefix {ε α β : Type} {f : β → α → Except ε β}
    (P : List α → β → Prop) (xs : List α)
    (hf : ∀ pre a b b', pre ++ [a] <+: xs → f b a = .ok b' → P pre b → P (pre ++ [a]) b')
    {init r : β} (h : xs.foldlM f init = .ok r) (hP : P [] init) : P xs r := by
  suffices hrest : ∀ rest pre b, pre ++ rest = xs → P pre b → rest.foldlM f b = .ok r → P xs r from
    hrest xs [] init rfl hP h
  intro rest
  induction rest with
  | nil =>
    intro pre b hpre hb hr
    cases hr
    rw [List.append_nil] at hpre
    exact hpre ▸ hb
  | cons a rest ih =>
    intro pre b hpre hb hr
    rw [List.foldlM_cons] at hr
    cases hb' : f b a with
    | error e => rw [hb'] at hr; cases hr
    | ok b' =>
      rw [hb'] at hr
      have hpre' : pre ++ [a] ++ rest = xs := by rw [List.append_assoc]; exact hpre
      exact ih (pre ++ [a]) b' hpre' (hf pre a b b' ⟨rest, hpre'⟩ hb' hb) hr

/-- A run of the split is shaped, and it visits every member of every container in order,
splitting exactly the eligible ones at their first visit. -/
theorem splitModule_shaped (hwf : m.WellFormed) (harena : m.InArena)
    (hover : m.OverridesInArena) {m' : Module} {n : Nat} (h : splitModule m = .ok (m', n)) :
    ∃ (s : SplitState) (t : List Split), Shaped m s t ∧ Visited m (visits m) t ∧
      n = s.claimed.length ∧
      m' = (s.pending.foldl (fun m p => m.addMember p.1 p.2) s.module).patchParents := by
  unfold splitModule at h
  simp only [bind, Except.bind] at h
  split at h
  · cases h
  rename_i s hfold
  cases h
  suffices hs : ∃ t, Shaped m s t ∧ Visited m (visits m) t by
    obtain ⟨t, ht, hv⟩ := hs
    exact ⟨s, t, ht, hv, rfl, rfl⟩
  -- the visits so far are those of the containers done, then those of the members done
  refine foldlM_ok_induction_prefix (fun cs s => ∃ t, Shaped m s t ∧
      Visited m (cs.flatMap fun c => (m.container c).members.map (c, ·)) t) _
    (fun cs c s₁ s₂ _ hstep ht₁ => ?_) hfold
    ⟨[], shaped_start hwf, ⟨List.Sublist.slnil, fun _ h => nomatch h⟩⟩
  obtain ⟨t₁, hS₁, hV₁⟩ := ht₁
  rw [hS₁.toTraced.container_eq c] at hstep
  obtain ⟨t₂, hS₂, hV₂⟩ : ∃ t, Shaped m s₂ t ∧ Visited m ((cs.flatMap fun c =>
      (m.container c).members.map (c, ·)) ++ (m.container c).members.map (c, ·)) t := by
    refine foldlM_ok_induction_prefix (fun ds s => ∃ t, Shaped m s t ∧ Visited m ((cs.flatMap
        fun c => (m.container c).members.map (c, ·)) ++ ds.map (c, ·)) t) _
      (fun ds d s₃ s₄ hpre hsplit ht₃ => ?_) hstep
      ⟨t₁, hS₁, by rw [List.map_nil, List.append_nil]; exact hV₁⟩
    obtain ⟨t₃, hS₃, hV₃⟩ := ht₃
    have hmem : d ∈ (m.container c).members :=
      hpre.subset (List.mem_append_right _ (List.mem_singleton_self d))
    obtain ⟨t₄, hS₄, hV₄⟩ := hS₃.visit hwf harena hover hV₃ hmem hsplit
    refine ⟨t₄, hS₄, ?_⟩
    rw [List.map_append, List.map_singleton, ← List.append_assoc]
    exact hV₄
  refine ⟨t₂, hS₂, ?_⟩
  rw [List.flatMap_append, List.flatMap_singleton]
  exact hV₂

/-! ## The module the split returns -/

theorem containersInOrder_addMember (M : Module) (c : ContainerId) (d : DeclId) :
    (M.addMember c d).containersInOrder = M.containersInOrder := by
  refine Module.containersInOrder_congr rfl (containers_size_addMember M c d) fun c' => ?_
  change ((M.modifyContainer c fun k => { k with members := k.members ++ [d] }).container
    c').classes = _
  rw [Module.container_modifyContainer]
  split <;> rfl

theorem containersInOrder_foldl_addMember :
    ∀ (ps : List (ContainerId × DeclId)) (M : Module),
      (ps.foldl (fun m p => m.addMember p.1 p.2) M).containersInOrder = M.containersInOrder := by
  intro ps
  induction ps with
  | nil => intro M; rfl
  | cons p ps ih =>
    intro M
    rw [List.foldl_cons, ih, containersInOrder_addMember]

theorem typeParams_foldl_addMember :
    ∀ (ps : List (ContainerId × DeclId)) (M : Module),
      (ps.foldl (fun m p => m.addMember p.1 p.2) M).typeParams = M.typeParams := by
  intro ps
  induction ps with
  | nil => intro M; rfl
  | cons p ps ih =>
    intro M
    rw [List.foldl_cons, ih]
    rfl

theorem positions_foldl_addMember :
    ∀ (ps : List (ContainerId × DeclId)) (M : Module),
      (ps.foldl (fun m p => m.addMember p.1 p.2) M).containers.map Container.position =
        M.containers.map Container.position := by
  intro ps
  induction ps with
  | nil => intro M; rfl
  | cons p ps ih =>
    intro M
    rw [List.foldl_cons, ih, Module.positions_addMember]

/-- What the split returns, given its trace `t`: the splits are visits, made exactly of the
eligible members, each member split once and each name handed out once in its container; each
container lists its members, then the implementations planned for it in order; each member
split is now its stub, and its implementation, past `m`'s arena, is shaped as `Decl.ImplOf`
says: it is `implementationDecl` of the deep copy of the member, made in a module that holds
`m`'s declaration at every id of `m`'s arena but the other stubs; every other declaration of `m`'s arena is untouched but for its parent; every member of a
visited container hangs from it; and the stubs are the decoys. -/
structure Decoys (m m' : Module) (t : List Split) : Prop where
  visited : Visited m (visits m) t
  eligible_of : ∀ x ∈ t, eligible m x.stub = true
  stubs_nodup : (t.map (·.stub)).Nodup
  names_nodup : (t.map fun x => (x.container, x.name)).Nodup
  impls_sorted : (t.map (·.impl)).Pairwise (· < ·)
  members_eq : ∀ c, (m'.container c).members =
    (m.container c).members ++ (t.filter (·.container = c)).map (·.impl)
  stub_member : ∀ x ∈ t, x.stub ∈ (m.container x.container).members
  stub_of : ∀ x ∈ t, (m.decl x.stub).StubOf x.stub x.name (m'.decl x.stub)
  impl_of : ∀ x ∈ t, (m.decl x.stub).ImplOf x.name (m'.decl x.impl)
  impl_copy : ∀ x ∈ t, ∃ M M' : Module, M.deepCopy x.stub = .ok (M', x.impl) ∧
    m.decls.size ≤ M.decls.size ∧
    (∀ y < m.decls.size, y ∉ t.map (·.stub) ∨ y = x.stub → M.decl y = m.decl y) ∧
    (m'.decl x.impl).unparented = (implementationDecl x.name (M'.decl x.impl)).unparented
  impl_ge : ∀ x ∈ t, m.decls.size ≤ x.impl
  impl_lt : ∀ x ∈ t, x.impl < m'.decls.size
  size_ge : m.decls.size ≤ m'.decls.size
  containersInOrder_eq : m'.containersInOrder = m.containersInOrder
  untouched : ∀ y < m.decls.size, y ∉ t.map (·.stub) →
    (m'.decl y).unparented = (m.decl y).unparented
  parent_eq : ∀ c ∈ m.containersInOrder, ∀ y ∈ (m.container c).members,
    (m'.decl y).parent = .container c
  decoy_iff : ∀ y, (m'.decl y).isDecoy = true ↔ y ∈ t.map (·.stub)
  typeParams_extended : m.typeParams.toList <+: m'.typeParams.toList
  positions_eq : m'.containers.map Container.position = m.containers.map Container.position
  nests_fresh : ∀ z, m.decls.size ≤ z → ∀ y ∈ m'.nestedDecls z, m.decls.size ≤ y

/-- The split of a well-formed module whose ids stay in the arena returns its decoys. -/
theorem splitModule_decoys (hwf : m.WellFormed) (harena : m.InArena)
    (hover : m.OverridesInArena) {m' : Module} {n : Nat} (h : splitModule m = .ok (m', n)) :
    ∃ t, n = t.length ∧ Decoys m m' t := by
  obtain ⟨s, t, hS, hV, rfl, rfl⟩ := splitModule_shaped hwf harena hover h
  generalize hM : s.pending.foldl (fun m p => m.addMember p.1 p.2) s.module = M
  -- appending the implementations and recomputing the parents only reparents
  have hrep₁ : s.module.Reparented M := hM ▸
    Module.Agrees.foldl (fun _ (p : ContainerId × DeclId) => Module.reparented_addMember p.1 p.2)
      _ _
  have hrep : s.module.Reparented M.patchParents := hrep₁.trans Module.reparented_patchParents
  -- a container with a member split lies in range
  have hin : ∀ p ∈ s.pending, p.1 < s.module.containers.size := by
    rw [hS.pending_eq, hS.containers_eq]
    intro p hp
    obtain ⟨x, hx, rfl⟩ := List.mem_map.1 hp
    exact (Module.lt_of_mem_members (hS.stub_member x hx)).1
  have hmembers : ∀ c, (M.container c).members =
      (m.container c).members ++ (t.filter (·.container = c)).map (·.impl) := by
    intro c
    rw [← hM, members_foldl_addMember _ _ hin, hS.toTraced.container_eq, hS.pending_eq,
      List.filter_map, List.map_map]
    rfl
  have horder : M.containersInOrder = m.containersInOrder := by
    rw [← hM, containersInOrder_foldl_addMember]
    exact Module.containersInOrder_congr hS.files_eq (by rw [hS.containers_eq])
      fun c => by rw [hS.toTraced.container_eq]
  refine ⟨t, by rw [hS.claimed_eq, List.length_map], hV, hS.eligible_of, hS.stubs_nodup,
    hS.names_nodup, hS.impls_sorted, fun c => ?_, hS.stub_member, fun x hx => ?_, fun x hx => ?_,
    fun x hx => ?_, hS.impl_ge, fun x hx => ?_, hrep.size_eq ▸ hS.size_ge, ?_, fun y hy hyt => ?_,
    fun c hc y hy => ?_, fun y => ?_, ?_, ?_, fun z hz y hy => ?_⟩
  · rw [Module.container, Module.containers_patchParents, ← Module.container]
    exact hmembers c
  · exact (hS.stub_of x hx).of_unparented (hrep.decl_eq x.stub)
  · exact (hS.impl_of x hx).of_unparented (hrep.decl_eq x.impl)
  · obtain ⟨M, M', hM, hsize, hagree, hdecl⟩ := hS.impl_copy x hx
    exact ⟨M, M', hM, hsize, hagree, by rw [hrep.decl_eq x.impl, hdecl]⟩
  · rw [hrep.size_eq]
    exact (hS.impl_named x hx).1
  · rw [← horder]
    refine Module.containersInOrder_congr (Module.files_patchParents M)
      (by rw [Module.containers_patchParents]) fun c => ?_
    rw [Module.container, Module.containers_patchParents, ← Module.container]
  · rw [hrep.decl_eq y, hS.untouched y hy hyt]
  · -- a member of `m` lies in `m`'s arena, below every implementation, in no other container
    have hlt : y < m.decls.size := harena.members_lt c y hy
    have hnotImpl : ∀ c', y ∈ (M.container c').members → y ∈ (m.container c').members := by
      intro c' hy'
      rw [hmembers c'] at hy'
      rcases List.mem_append.1 hy' with hy' | hy'
      · exact hy'
      · obtain ⟨x, hx, rfl⟩ := List.mem_map.1 hy'
        exact absurd (hS.impl_ge x (List.mem_filter.1 hx).1) (Nat.not_le.2 hlt)
    refine Module.parent_patchParents (Nat.lt_of_lt_of_le hlt
      (hrep₁.size_eq ▸ hS.size_ge)) (horder ▸ hc)
      (by rw [hmembers c]; exact List.mem_append_left _ hy) (fun c' _ hy' => ?_) fun z hz => ?_
    · exact (hwf.member_unique hy (hnotImpl c' hy')).symm
    · exact hS.not_nested_member hwf harena hy z ((Module.Reparented.nests_iff hrep₁).1 hz)
  · rw [hrep.congr (f := Decl.isDecoy) (fun _ => rfl)]
    by_cases hyt : y ∈ t.map (·.stub)
    · exact ⟨fun _ => hyt, fun _ => hS.isDecoy_of_mem hyt⟩
    · rw [hS.only_stubs y hyt]
      exact ⟨fun h => absurd h Bool.false_ne_true, fun h => absurd h hyt⟩
  · rw [Module.typeParams_patchParents, ← hM, typeParams_foldl_addMember]
    exact hS.typeParams_extended
  · rw [Module.containers_patchParents, ← hM, positions_foldl_addMember, hS.containers_eq]
  · exact hS.nests_fresh z hz y (hrep.nests_iff.1 hy)

/-! ## Each stub's implementation -/

theorem decoyImplName?_of_unmarked {x : Decl} (h : ∀ a ∈ x.annotations, a.isDecoyMark = false) :
    x.decoyImplName? = none := by
  simp only [Decl.decoyImplName?, List.findSome?_eq_none_iff]
  intro a ha
  have hmark := h a ha
  cases a with
  | decoy => cases hmark
  | decoyImpl => cases hmark
  | _ => rfl

/-- Marking unmarked annotations as the implementation of `name` makes `name` the one read. -/
theorem decoyImplName?_eq_of_marked {x y : Decl} {name : String}
    (hx : ∀ a ∈ x.annotations, a.isDecoyMark = false)
    (hy : y.annotations = x.annotations ++ [.decoyImpl name]) : y.decoyImplName? = some name := by
  have hnone := decoyImplName?_of_unmarked hx
  simp only [Decl.decoyImplName?] at hnone ⊢
  rw [hy, List.findSome?_append, hnone]
  rfl

/-- `impl` is found for the decoy `d` among the members of its container: the first member
there that implements the decoy's target name. -/
def FoundLocally (M : Module) (d impl : DeclId) : Prop :=
  ∃ target parts c, (M.decl d).decoy? = some (target, parts) ∧ M.containerOf d = some c ∧
    (M.container c).members.find? (fun x => (M.decl x).decoyImplName? == some target) = some impl

/-- An implementation found among the members is the one looked up, whatever the context. -/
theorem implementationFor_of_foundLocally {M : Module} {d impl : DeclId} (ctx : LowerContext)
    (h : FoundLocally M d impl) : implementationFor ctx M d = .ok impl := by
  obtain ⟨target, parts, c, hdecoy, hcont, hfind⟩ := h
  rw [implementationFor, hdecoy]
  simp only [hcont, Option.bind_some, hfind]
  rfl

namespace Decoys

variable {m' : Module}

theorem decoy?_stub (hD : Decoys m m' t) {x : Split} (hx : x ∈ t) :
    (m'.decl x.stub).decoy? = some (x.name, []) := by
  rw [Decl.decoy?, (hD.stub_of x hx).annotations_eq]
  rfl

theorem decoyImplName?_impl (hwf : m.WellFormed) (hD : Decoys m m' t) {x : Split} (hx : x ∈ t) :
    (m'.decl x.impl).decoyImplName? = some x.name :=
  decoyImplName?_eq_of_marked (hwf.no_decoy_marks x.stub) (hD.impl_of x hx).annotations_eq

/-- A member of `m` implements no decoy: a stub carries the decoy annotation alone, and any
other member the annotations it had. -/
theorem decoyImplName?_member (hwf : m.WellFormed) (harena : m.InArena) (hD : Decoys m m' t)
    {c : ContainerId} {y : DeclId} (hy : y ∈ (m.container c).members) :
    (m'.decl y).decoyImplName? = none := by
  by_cases hyt : y ∈ t.map (·.stub)
  · obtain ⟨x, hx, rfl⟩ := List.mem_map.1 hyt
    rw [Decl.decoyImplName?, (hD.stub_of x hx).annotations_eq]
    rfl
  · have hann := congrArg Decl.annotations (hD.untouched y (harena.members_lt c y hy) hyt)
    exact decoyImplName?_of_unmarked fun a ha => hwf.no_decoy_marks y a (hann ▸ ha)

/-- The visited container of a split is in order. -/
theorem container_mem (hD : Decoys m m' t) {x : Split} (hx : x ∈ t) :
    x.container ∈ m.containersInOrder := by
  have hv :=
    hD.visited.sublist.subset (List.mem_map_of_mem (f := fun x => (x.container, x.stub)) hx)
  simp only [visits, List.mem_flatMap, List.mem_map, Prod.mk.injEq] at hv
  obtain ⟨c, hc, y, -, rfl, -⟩ := hv
  exact hc

/-- Among the members of a stub's container, the first implementing its target name is its
implementation: no member of `m` implements a decoy, and names are handed out once in a
container. -/
theorem find?_impl (hwf : m.WellFormed) (harena : m.InArena) (hD : Decoys m m' t) {x : Split}
    (hx : x ∈ t) : (m'.container x.container).members.find?
      (fun y => (m'.decl y).decoyImplName? == some x.name) = some x.impl := by
  rw [hD.members_eq, List.find?_append,
    List.find?_eq_none.2 fun y hy => by rw [hD.decoyImplName?_member hwf harena hy]; simp,
    Option.none_or]
  have hmem : x.impl ∈ (t.filter (·.container = x.container)).map (·.impl) :=
    List.mem_map_of_mem (List.mem_filter.2 ⟨hx, decide_eq_true rfl⟩)
  have hpx : ((m'.decl x.impl).decoyImplName? == some x.name) = true := by
    rw [hD.decoyImplName?_impl hwf hx, beq_self_eq_true]
  have hsome : (((t.filter (·.container = x.container)).map (·.impl)).find?
      fun y => (m'.decl y).decoyImplName? == some x.name).isSome :=
    List.find?_isSome.2 ⟨x.impl, hmem, hpx⟩
  obtain ⟨z, hz⟩ := Option.isSome_iff_exists.1 hsome
  -- whatever the search finds implements the same name in the same container
  have hzp := List.find?_some hz
  obtain ⟨y, hy, rfl⟩ := List.mem_map.1 (List.mem_of_find?_eq_some hz)
  obtain ⟨hyt, hyc⟩ := List.mem_filter.1 hy
  rw [hD.decoyImplName?_impl hwf hyt, beq_iff_eq, Option.some.injEq] at hzp
  have hyx : y = x := List.inj_on_of_nodup_map hD.names_nodup hyt hx
    (by rw [of_decide_eq_true hyc, hzp])
  rw [hz, hyx]

/-- Each stub's own implementation is found among the members of its container. -/
theorem foundLocally_stub (hwf : m.WellFormed) (harena : m.InArena) (hD : Decoys m m' t)
    {x : Split} (hx : x ∈ t) : FoundLocally m' x.stub x.impl :=
  ⟨x.name, [], x.container, hD.decoy?_stub hx,
    Module.containerOf_of_parent (hD.parent_eq _ (hD.container_mem hx) _ (hD.stub_member x hx)),
    hD.find?_impl hwf harena hx⟩

/-- The implementation looked up for each stub is its own. -/
theorem implementationFor_stub (hwf : m.WellFormed) (harena : m.InArena) (hD : Decoys m m' t)
    (ctx : LowerContext) {x : Split} (hx : x ∈ t) :
    implementationFor ctx m' x.stub = .ok x.impl :=
  implementationFor_of_foundLocally ctx (hD.foundLocally_stub hwf harena hx)

end Decoys

end Decoy

end ComposeLowering
