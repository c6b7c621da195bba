import ComposeLowering.Proofs.Composer.Step

/-!
# The invariant of the composer pass

The composer pass edits the module in place while it walks it: it appends clones, takes a
declaration's defaults and body out and puts lowered ones back, and rewrites calls. This file
states what holds of the transformer's state between any two of its steps, and shows that each
step keeps it.

## The invariant

`Composer.Inv A s` has four parts.

* Every declaration in `lowered` exists and is in lowered form: its parameters are its real
  ones, none synthetic, followed by exactly the synthetic parameters for that many real
  parameters and its receivers, origin by origin (`Decl.LoweredForm`).
* A declaration outside `lowered` has no composer parameter.
* Every clone recorded in `clones` is lowered, keeps the receivers of the declaration it
  replaces, and has one real parameter for each of that declaration's parameters.
* Every call marked as lowered, anywhere in the defaults and bodies of the arena, fits its
  target: a lowered declaration with one argument slot per parameter, or an `invoke` with as
  many slots as it names; while arities are tracked, every other call of a declaration
  has one slot per parameter of its callee (`NodeFits`).

Each part reads of a declaration only its signature shape and its defaults and body, and
each is stated for every declaration, so the declarations a walk has taken apart are covered by
the walk's own pre- and postconditions, and no part needs to know which declarations are
being visited.

## Edits of the arena

The pass changes existing declarations only through `putExprs`, `takeExprs` and the overrides
of a fresh clone; none of them touches a signature shape. The arena after each edit is read
through the equations of `ComposeLowering.Proofs.Arena`.
-/

namespace ComposeLowering

/-! ## Signature shapes -/

/-- The parameters of `x` are `n` real ones, none synthetic, followed by exactly the synthetic
parameters for `n` real parameters, the receivers of `x` and `h`, origin by origin; a
constructor has no default masks. -/
def Decl.LoweredForm (x : Decl) (n : Nat) (h : Bool) : Prop :=
  ∃ real : List ParamOrigin,
    x.params.map (·.origin) = real ++ (Synthetic.params n x.receiverSlots h).map SyntheticParam.origin ∧
    real.length = n ∧ (∀ o ∈ real, o.isSynthetic = false) ∧ (x.kind = .constructor → h = false)

theorem Decl.LoweredForm.of_shape {x y : Decl} {n : Nat} {h : Bool}
    (hxy : y.signatureShape = x.signatureShape) (hx : x.LoweredForm n h) : y.LoweredForm n h := by
  obtain ⟨real, hparams, hlen, hreal, hkind⟩ := hx
  have hp : y.params.map (·.origin) = x.params.map (·.origin) := Decl.map_origin_eq_of_shape hxy
  have hr : y.receiverSlots = x.receiverSlots := congrArg (fun s => s.2.1) hxy
  have hk : y.kind = x.kind := congrArg (fun s => s.2.2) hxy
  refine ⟨real, ?_, hlen, hreal, fun hc => hkind (hk ▸ hc)⟩
  rw [hp, hr]
  exact hparams

/-- A declaration in lowered form has a composer parameter. -/
theorem Decl.LoweredForm.composer_mem {x : Decl} {n : Nat} {h : Bool} (hx : x.LoweredForm n h) :
    ParamOrigin.composer ∈ x.params.map (·.origin) := by
  obtain ⟨real, hparams, -⟩ := hx
  rw [hparams]
  exact List.mem_append_right _ (List.mem_map.2 ⟨.composer, by simp [Synthetic.params], rfl⟩)

theorem Decl.kind_eq_of_shape {x y : Decl} (h : y.signatureShape = x.signatureShape) :
    y.kind = x.kind :=
  congrArg (fun sh => sh.2.2) h

/-- What the defaults of a declaration ask of its form: one that is no constructor and has a
default value of its own has default masks. -/
def Decl.MasksDefaults (x : Decl) : Prop :=
  x.kind ≠ .constructor → x.hasDefaultValues = true → ∃ n, x.LoweredForm n true

/-- A declaration of the same shape as `x` masks its defaults when every default it has that `x`
lacks comes with default masks. -/
theorem Decl.MasksDefaults.of_shape {x y : Decl} (hx : x.MasksDefaults)
    (hxy : y.signatureShape = x.signatureShape)
    (hdef : y.kind ≠ .constructor → y.hasDefaultValues = true →
      x.hasDefaultValues = true ∨ ∃ n, x.LoweredForm n true) : y.MasksDefaults := by
  intro hk hd
  have hk' : x.kind ≠ .constructor := Decl.kind_eq_of_shape hxy ▸ hk
  rcases hdef hk hd with hd' | ⟨n, hform⟩
  · obtain ⟨n, hform⟩ := hx hk' hd'
    exact ⟨n, hform.of_shape hxy⟩
  · exact ⟨n, hform.of_shape hxy⟩

namespace Composer

/-! ## Calls that fit -/

/-- Where a call given its composer arguments may go with `n` argument slots: to a lowered
declaration with one slot per parameter, or to an `invoke` of `n` arguments. -/
def FitsTarget (s : ComposerState) : CallTarget → Nat → Prop
  | .decl t, n => t ∈ s.lowered ∧ t < s.module.decls.size ∧ n = (s.module.decl t).params.length
  | .invoke k, n => n = k
  | .decoy, _ => False

/-- Where a call not yet given its composer arguments may go with `n` argument slots, when
arities are tracked: a call of a declaration goes to one of the arena with one slot per
parameter. -/
def FitsUnmarked (s : ComposerState) : CallTarget → Nat → Prop
  | .decl t, n => t < s.module.decls.size ∧ n = (s.module.decl t).params.length
  | _, _ => True

/-- A node that is a call fits its target: a call marked as given its composer arguments as
`FitsTarget` says, and, when `A` holds, an unmarked call as `FitsUnmarked` says. With `A`
false only marked calls are constrained; with `A` true the arities the front end promises are
tracked as well. -/
def NodeFits (A : Prop) (s : ComposerState) (e : Expr) : Prop :=
  match e.callShape? with
  | some (tgt, true, slots) => FitsTarget s tgt slots.length
  | some (tgt, false, slots) => A → FitsUnmarked s tgt slots.length
  | none => True

variable {A : Prop}

theorem persists_fitsTarget (tgt : CallTarget) (n : Nat) :
    Persists fun s => FitsTarget s tgt n := by
  intro s s' hg h
  cases tgt with
  | decl t =>
    obtain ⟨hl, hlt, hn⟩ := h
    exact ⟨hg.lowered_sub t hl, Nat.lt_of_lt_of_le hlt hg.size_le, hn.trans (hg.length_params hlt).symm⟩
  | invoke k => exact h
  | decoy => exact h

theorem persists_fitsUnmarked (tgt : CallTarget) (n : Nat) :
    Persists fun s => FitsUnmarked s tgt n := by
  intro s s' hg h
  cases tgt with
  | decl t =>
    obtain ⟨hlt, hn⟩ := h
    exact ⟨Nat.lt_of_lt_of_le hlt hg.size_le, hn.trans (hg.length_params hlt).symm⟩
  | invoke k => trivial
  | decoy => trivial

theorem stable_all_nodeFits : Stable fun (e : Expr) s => e.All (NodeFits A s) := by
  intro e s s' hg h x hx
  have hfit := h x hx
  unfold NodeFits at hfit ⊢
  split at hfit
  · exact persists_fitsTarget _ _ s s' hg hfit
  · exact fun hA => persists_fitsUnmarked _ _ s s' hg (hfit hA)
  · trivial

/-- Whether a node fits depends only on its call shape. -/
theorem nodeFits_of_callShape {s : ComposerState} {e e' : Expr}
    (h : e'.callShape? = e.callShape?) (he : NodeFits A s e) : NodeFits A s e' := by
  unfold NodeFits at he ⊢
  rw [h]
  exact he

/-- A node that is no call fits. -/
theorem nodeFits_of_callShape_none {s : ComposerState} {e : Expr} (h : e.callShape? = none) :
    NodeFits A s e := by
  simp [NodeFits, h]

/-- An expression without calls fits in every state. -/
theorem all_nodeFits_of_noCalls {s : ComposerState} {e : Expr}
    (h : e.All fun x => x.callShape? = none) : e.All (NodeFits A s) :=
  Expr.All.imp h fun _ hx => nodeFits_of_callShape_none hx

/-- A node rebuilt from its children keeps fitting when it keeps its call shape and its new
children fit. -/
theorem all_of_rebuilt {s : ComposerState} {e e' : Expr} (hshape : e'.callShape? = e.callShape?)
    (hchildren : ∀ c ∈ e'.children, c.All (NodeFits A s)) (he : e.All (NodeFits A s)) :
    e'.All (NodeFits A s) :=
  Expr.All.rebuilt (fun h => nodeFits_of_callShape h) hshape hchildren he

theorem persists_all_nodeFits (e : Expr) : Persists fun s => e.All (NodeFits A s) :=
  fun s s' hg h => stable_all_nodeFits e s s' hg h

/-- A node with no children that is no call fits. -/
theorem all_nodeFits_of_leaf {s : ComposerState} {e : Expr} (hc : e.children = [])
    (hs : e.callShape? = none) : e.All (NodeFits A s) :=
  Expr.all_iff.2 ⟨nodeFits_of_callShape_none hs, by simp [hc]⟩

/-- Every node of a zero value is a constant or an inline class wrapped around a zero value. -/
theorem zeroValue_all {Q : Expr → Prop} (hconst : ∀ c t, Q (.const c t))
    (hnew : ∀ u t, Q (.inlineNew u t)) : ∀ t : Ty, t.zeroValue.All Q
  | ⟨.cls _ _ (some u), nullable, c⟩ => by
    have ih := zeroValue_all hconst hnew u
    cases nullable with
    | true => exact Expr.all_iff.2 ⟨hconst _ _, by simp [Ty.zeroValue, Expr.children]⟩
    | false =>
      refine Expr.all_iff.2 ⟨hnew _ _, ?_⟩
      simpa [Ty.zeroValue, Expr.children] using ih
  | ⟨.cls _ _ none, nullable, c⟩ | ⟨.fn _ _, nullable, c⟩ | ⟨.param _, nullable, c⟩ => by
    cases nullable <;> exact Expr.all_iff.2 ⟨hconst _ _, by simp [Ty.zeroValue, Expr.children]⟩
  | ⟨.base b, nullable, c⟩ => by
    cases nullable <;> cases b <;>
      exact Expr.all_iff.2 ⟨hconst _ _, by simp [Ty.zeroValue, Expr.children]⟩

/-- Every node of the placeholder for an omitted argument is the placeholder itself or a node of
a zero value. -/
theorem defaultArgumentFor_all {Q : Expr → Prop} (hconst : ∀ c t, Q (.const c t))
    (hnew : ∀ u t, Q (.inlineNew u t)) (hplaceholder : ∀ xs t, Q (.composite .defaultValue xs t))
    {p : Param} {e : Expr} (h : defaultArgumentFor p = some e) : e.All Q := by
  unfold defaultArgumentFor at h
  split at h
  · cases h
  · cases h
    exact Expr.all_iff.2 ⟨hplaceholder _ _, by simpa [Expr.children] using zeroValue_all hconst hnew p.ty⟩

/-- The placeholder for an omitted argument holds no call. -/
theorem defaultArgumentFor_noCalls {p : Param} {e : Expr} (h : defaultArgumentFor p = some e) :
    e.All fun x => x.callShape? = none :=
  defaultArgumentFor_all (fun _ _ => rfl) (fun _ _ => rfl) (fun _ _ => rfl) h

/-- The prologue of a clone's body adds only tests of mask bits, assignments and a block around
the body's statements: what holds of such nodes, of every default and of the body holds of the
body with its prologue. -/
theorem all_defaultPrologue_of {Q : Expr → Prop} (hite : ∀ c a b t, Q (.ite c a b t))
    (hmask : ∀ w i t, Q (.maskBit w i t)) (hset : ∀ v x t, Q (.set v x t))
    (hblock : ∀ xs t, Q (.block xs t)) (d : Decl) {defaults : List (Option Expr)}
    (words : List ValueId) {b : Expr} (hdefaults : ∀ o ∈ defaults, ∀ e ∈ o, e.All Q)
    (hb : b.All Q) : (defaultPrologue d defaults words b).All Q := by
  have hstmt : ∀ x ∈ prologueStmts d defaults words, x.All Q := by
    intro x hx
    obtain ⟨⟨⟨p, dflt⟩, i⟩, hmem, hx⟩ := List.mem_filterMap.1 hx
    obtain ⟨y, rfl, rfl⟩ := Option.map_eq_some_iff.1 hx
    have hdflt : some y ∈ defaults := (List.of_mem_zip (List.fst_mem_of_mem_zipIdx hmem)).2
    have hset : (Expr.set p.value y Ty.unit).All Q :=
      Expr.all_iff.2 ⟨hset _ _ _, by simpa [Expr.children] using hdefaults _ hdflt y rfl⟩
    refine Expr.all_iff.2 ⟨hite _ _ _ _, ?_⟩
    simp only [Expr.children, Option.toList, List.mem_cons, List.not_mem_nil, or_false]
    rintro c (rfl | rfl)
    · exact Expr.all_iff.2 ⟨hmask _ _ _, by simp [Expr.children]⟩
    · exact hset
  unfold defaultPrologue
  split
  · rename_i inner t
    refine Expr.all_iff.2 ⟨hblock _ _, fun c hc => ?_⟩
    rcases List.mem_append.1 hc with hc | hc
    · exact hstmt c hc
    · exact hb.child hc
  · refine Expr.all_iff.2 ⟨hblock _ _, fun c hc => ?_⟩
    rcases List.mem_append.1 hc with hc | hc
    · exact hstmt c hc
    · exact List.mem_singleton.1 hc ▸ hb

/-- The prologue of a clone's body tests mask bits and assigns defaults: it adds no call. -/
theorem all_defaultPrologue {s : ComposerState} (d : Decl) {defaults : List (Option Expr)}
    (words : List ValueId) {b : Expr} (hdefaults : ∀ o ∈ defaults, ∀ e ∈ o, e.All (NodeFits A s))
    (hb : b.All (NodeFits A s)) : (defaultPrologue d defaults words b).All (NodeFits A s) :=
  all_defaultPrologue_of (fun _ _ _ _ => trivial) (fun _ _ _ => trivial) (fun _ _ _ => trivial)
    (fun _ _ => trivial) d words hdefaults hb

/-! ## The invariant -/

/-- What holds of the transformer's state between any two steps of the pass. -/
structure Inv (A : Prop) (s : ComposerState) : Prop where
  /-- Every lowered declaration exists and is in lowered form. -/
  lowered_form : ∀ d ∈ s.lowered,
    d < s.module.decls.size ∧ ∃ n h, (s.module.decl d).LoweredForm n h
  /-- A declaration that is not lowered has no composer parameter. -/
  no_composer : ∀ d, d ∉ s.lowered → ∀ p ∈ (s.module.decl d).params, p.origin ≠ .composer
  /-- A clone is lowered, keeps the receivers of the declaration it replaces, and has one real
  parameter per parameter of that declaration. -/
  clone_form : ∀ p ∈ s.clones, p.1 < s.module.decls.size ∧ p.2 ∈ s.lowered ∧
    (∃ h, (s.module.decl p.2).LoweredForm (s.module.decl p.1).params.length h) ∧
    (s.module.decl p.2).receiverSlots = (s.module.decl p.1).receiverSlots
  /-- Every marked call in a default or a body fits its target. -/
  calls_fit : ∀ d, ∀ e ∈ (s.module.decl d).owned, e.All (NodeFits A s)
  /-- A lowered declaration that is no constructor and has a default value of its own has
  default masks. -/
  masks_defaults : ∀ d ∈ s.lowered, (s.module.decl d).MasksDefaults

theorem Inv.nodeFits_of_grows {s s' : ComposerState} (hg : Grows s s') {e : Expr}
    (he : e.All (NodeFits A s)) : e.All (NodeFits A s') :=
  stable_all_nodeFits e s s' hg he

/-- A declaration of the arena that a step lowers was lowered before it: a step lowers only the
clones it appends, since lowered form needs a composer parameter, which the shape keeps. -/
theorem Inv.mem_lowered_of_grows {s s' : ComposerState} (hI : Inv A s) (hI' : Inv A s')
    (hg : Grows s s') {d : DeclId} (hd : d < s.module.decls.size) (hl : d ∈ s'.lowered) :
    d ∈ s.lowered := by
  by_contra hnot
  obtain ⟨-, n, h, hform⟩ := hI'.lowered_form d hl
  obtain ⟨p, hp, hpo⟩ := List.mem_map.1 (hform.of_shape (hg.shape_eq d hd).symm).composer_mem
  exact hI.no_composer d hnot p hp hpo

/-- A parameter of a declaration carries an origin that some parameter of any declaration of the
same shape carries. -/
theorem origin_mem_of_shape {x y : Decl} (h : y.signatureShape = x.signatureShape) {p : Param}
    (hp : p ∈ y.params) : ∃ q ∈ x.params, q.origin = p.origin := by
  have hmap : y.params.map (·.origin) = x.params.map (·.origin) := Decl.map_origin_eq_of_shape h
  have : p.origin ∈ x.params.map (·.origin) := hmap ▸ List.mem_map_of_mem hp
  simpa using this

/-- The invariant survives a change of the module that keeps the size of the arena and every
signature shape, and brings in only defaults and bodies whose marked calls fit. -/
theorem inv_edit {s : ComposerState} {m' : Module} (hI : Inv A s)
    (hsize : m'.decls.size = s.module.decls.size)
    (hshape : ∀ j, (m'.decl j).signatureShape = (s.module.decl j).signatureShape)
    (howned : ∀ j, ∀ e ∈ (m'.decl j).owned, e ∈ (s.module.decl j).owned ∨ e.All (NodeFits A s))
    (hmasks : ∀ j ∈ s.lowered, (m'.decl j).kind ≠ .constructor →
      (m'.decl j).hasDefaultValues = true →
        (s.module.decl j).hasDefaultValues = true ∨ ∃ n, (s.module.decl j).LoweredForm n true) :
    Inv A { s with module := m' } ∧ Grows s { s with module := m' } := by
  have hg : Grows s { s with module := m' } :=
    ⟨Nat.le_of_eq hsize.symm, fun j _ => hshape j, fun _ h => h, fun _ h => h⟩
  refine ⟨⟨?_, ?_, ?_, ?_, ?_⟩, hg⟩
  · intro d hd
    obtain ⟨hlt, n, h, hform⟩ := hI.lowered_form d hd
    exact ⟨hsize ▸ hlt, n, h, hform.of_shape (hshape d)⟩
  · intro d hd p hp
    obtain ⟨q, hq, hqo⟩ := origin_mem_of_shape (hshape d) hp
    exact hqo ▸ hI.no_composer d hd q hq
  · intro p hp
    obtain ⟨hlt, hl, ⟨h, hform⟩, hrecv⟩ := hI.clone_form p hp
    have hrecv' : ∀ j, (m'.decl j).receiverSlots = (s.module.decl j).receiverSlots :=
      fun j => congrArg (fun sh => sh.2.1) (hshape j)
    refine ⟨hsize ▸ hlt, hl, ⟨h, ?_⟩, by rw [hrecv', hrecv', hrecv]⟩
    rw [show (m'.decl p.1).params.length = (s.module.decl p.1).params.length from
      hg.length_params hlt]
    exact hform.of_shape (hshape p.2)
  · intro d e he
    rcases howned d e he with he | he
    · exact Inv.nodeFits_of_grows hg (hI.calls_fit d e he)
    · exact Inv.nodeFits_of_grows hg he
  · intro d hd
    exact (hI.masks_defaults d hd).of_shape (hshape d) (hmasks d hd)

/-- The invariant survives a change of containers and parents. -/
theorem inv_reparented {s : ComposerState} {m' : Module} (hI : Inv A s)
    (h : s.module.Reparented m') :
    Inv A { s with module := m' } ∧ Grows s { s with module := m' } :=
  inv_edit hI h.size_eq (h.congr (f := Decl.signatureShape) fun _ => rfl)
    (fun j _ he => .inl (h.owned_eq j ▸ he))
    fun j _ _ hd => .inl ((h.congr (f := Decl.hasDefaultValues) (fun _ => rfl) j).symm.trans hd)

/-- The invariant survives appending a clone of `old` in lowered form with no defaults and no
body, recorded as lowered and as the clone of `old`. -/
theorem inv_alloc {s s' : ComposerState} (hI : Inv A s) {old : DeclId} {h : Bool}
    (hold : old < s.module.decls.size)
    (hsize : s'.module.decls.size = s.module.decls.size + 1)
    (hdecl : ∀ j, j ≠ s.module.decls.size → s'.module.decl j = s.module.decl j)
    (hform : (s'.module.decl s.module.decls.size).LoweredForm (s.module.decl old).params.length h)
    (hrecv : (s'.module.decl s.module.decls.size).receiverSlots = (s.module.decl old).receiverSlots)
    (howned : (s'.module.decl s.module.decls.size).owned = [])
    (hlow : s'.lowered = s.module.decls.size :: s.lowered)
    (hcl : s'.clones = (old, s.module.decls.size) :: s.clones) :
    Inv A s' ∧ Grows s s' := by
  have hg : Grows s s' := by
    refine ⟨hsize ▸ Nat.le_succ _, fun j hj => ?_, fun d hd => hlow ▸ List.mem_cons_of_mem _ hd,
      fun p hp => hcl ▸ List.mem_cons_of_mem _ hp⟩
    rw [hdecl j (Nat.ne_of_lt hj)]
  refine ⟨⟨?_, ?_, ?_, ?_, ?_⟩, hg⟩
  · intro d hd
    rcases List.mem_cons.1 (hlow ▸ hd) with rfl | hd
    · exact ⟨hsize ▸ Nat.lt_succ_self _, _, h, hform⟩
    · obtain ⟨hlt, n', h', hform'⟩ := hI.lowered_form d hd
      exact ⟨hsize ▸ Nat.lt_succ_of_lt hlt, n', h', (hdecl d (Nat.ne_of_lt hlt)).symm ▸ hform'⟩
  · intro d hd
    rw [hlow] at hd
    rw [hdecl d fun heq => hd (heq ▸ List.mem_cons_self)]
    exact hI.no_composer d fun h' => hd (List.mem_cons_of_mem _ h')
  · intro p hp
    rcases List.mem_cons.1 (hcl ▸ hp) with rfl | hp
    · refine ⟨hsize ▸ Nat.lt_succ_of_lt hold, hlow ▸ List.mem_cons_self, ⟨h, ?_⟩, ?_⟩
      · rw [hdecl old (Nat.ne_of_lt hold)]
        exact hform
      · rw [hdecl old (Nat.ne_of_lt hold)]
        exact hrecv
    · obtain ⟨hlt, hl, ⟨h', hform'⟩, hrecv'⟩ := hI.clone_form p hp
      have hlt₂ := (hI.lowered_form p.2 hl).1
      refine ⟨hsize ▸ Nat.lt_succ_of_lt hlt, hlow ▸ List.mem_cons_of_mem _ hl, ⟨h', ?_⟩, ?_⟩
      · rw [hdecl _ (Nat.ne_of_lt hlt), hdecl _ (Nat.ne_of_lt hlt₂)]
        exact hform'
      · rw [hdecl _ (Nat.ne_of_lt hlt), hdecl _ (Nat.ne_of_lt hlt₂)]
        exact hrecv'
  · intro d e he
    by_cases hd : d = s.module.decls.size
    · rw [hd, howned] at he
      exact absurd he List.not_mem_nil
    · rw [hdecl d hd] at he
      exact Inv.nodeFits_of_grows hg (hI.calls_fit d e he)
  · intro d hd
    rcases List.mem_cons.1 (hlow ▸ hd) with rfl | hd
    · -- the clone has no default yet
      intro _ hdef
      obtain ⟨e, he⟩ := Decl.hasDefaultValues_iff.1 hdef
      have he' := List.mem_append_left (s'.module.decl s.module.decls.size).body.toList he
      rw [← Decl.owned, howned] at he'
      exact absurd he' List.not_mem_nil
    · rw [hdecl d (Nat.ne_of_lt (hI.lowered_form d hd).1)]
      exact hI.masks_defaults d hd

/-- A declaration whose parameters are real ones, none synthetic, followed by the synthetic
parameters for them, is in lowered form. -/
theorem Decl.loweredForm_of_parts {x : Decl} {real synthetic : List Param} {h : Bool}
    (hparams : x.params = real ++ synthetic)
    (hsynth : synthetic.map (·.origin) =
      (Synthetic.params real.length x.receiverSlots h).map SyntheticParam.origin)
    (hreal : ∀ p ∈ real, p.origin.isSynthetic = false)
    (hkind : x.kind = .constructor → h = false) : x.LoweredForm real.length h :=
  ⟨real.map (·.origin), by rw [hparams, List.map_append, hsynth], by simp,
    by simpa using hreal, hkind⟩

/-- A constructor never needs default masks. -/
theorem requiresDefaultMask_constructor {m : Module} {d : DeclId} (k : Nat)
    (h : (m.decl d).kind = .constructor) : requiresDefaultMask m (k + 1) d = false := by
  simp [requiresDefaultMask, h]

/-- A declaration that is no constructor and has a default value of its own needs default
masks, whatever it overrides. -/
theorem requiresDefaultMask_of_hasDefaultValues {m : Module} {d : DeclId} (k : Nat)
    (hk : (m.decl d).kind ≠ .constructor) (h : (m.decl d).hasDefaultValues = true) :
    requiresDefaultMask m (k + 1) d = true := by
  simp [requiresDefaultMask, hk, h]

/-! ## Edits of one declaration -/

/-- The invariant survives a change of one declaration that keeps its signature shape and brings
in only defaults and bodies whose marked calls fit. -/
theorem inv_modifyDecl {s : ComposerState} (hI : Inv A s) {i : DeclId} {f : Decl → Decl}
    (hshape : (f (s.module.decl i)).signatureShape = (s.module.decl i).signatureShape)
    (howned : ∀ e ∈ (f (s.module.decl i)).owned,
      e ∈ (s.module.decl i).owned ∨ e.All (NodeFits A s))
    (hmasks : i ∈ s.lowered → (f (s.module.decl i)).kind ≠ .constructor →
      (f (s.module.decl i)).hasDefaultValues = true →
        (s.module.decl i).hasDefaultValues = true ∨ ∃ n, (s.module.decl i).LoweredForm n true) :
    Inv A { s with module := s.module.modifyDecl i f } ∧
      Grows s { s with module := s.module.modifyDecl i f } := by
  refine inv_edit hI (by simp) (fun j => ?_) (fun j e he => ?_) (fun j hj => ?_)
  · rw [Module.decl_modifyDecl]
    split
    · rename_i h
      rw [← h.1]
      exact hshape
    · rfl
  · rw [Module.decl_modifyDecl] at he
    split at he
    · rename_i h
      rw [← h.1] at he ⊢
      exact howned e he
    · exact .inl he
  · rw [Module.decl_modifyDecl]
    split
    · rename_i h
      rw [← h.1] at hj ⊢
      exact hmasks hj
    · exact fun _ hd => .inl hd

/-- Putting back defaults and a body whose marked calls fit keeps the invariant. -/
theorem inv_putExprs {s : ComposerState} (hI : Inv A s) {i : DeclId} {x : DeclExprs}
    (hdefaults : ∀ o ∈ x.defaults, ∀ e ∈ o, e.All (NodeFits A s))
    (hbody : ∀ e ∈ x.body, e.All (NodeFits A s))
    (hmasks : i ∈ s.lowered → (s.module.decl i).kind ≠ .constructor →
      (∃ o ∈ x.defaults, o.isSome = true) → ∃ n, (s.module.decl i).LoweredForm n true) :
    Inv A { s with module := s.module.putExprs i x } ∧
      Grows s { s with module := s.module.putExprs i x } := by
  refine inv_modifyDecl hI ?_ (fun e he => ?_) fun hi hk hd => ?_
  · simp [Decl.signatureShape, map_undefaulted_putDefaults, Decl.receiverSlots, Decl.receivers]
  · simp only [Decl.owned, List.mem_append] at he
    rcases he with he | he
    · rcases mem_owned_putDefaults he with he | he
      · obtain ⟨o, ho, rfl⟩ := List.mem_filterMap.1 he
        exact .inr (hdefaults _ ho e rfl)
      · exact .inl (List.mem_append_left _ he)
    · exact .inr (hbody e (Option.mem_toList.1 he))
  · -- a default comes back from the declaration itself or from what is put
    rcases hasDefaultValues_of_putDefaults rfl hd with hd | hput
    · exact .inl hd
    · exact .inr (hmasks hi hk hput)

/-- Taking out a declaration's defaults and body keeps the invariant. -/
theorem inv_takeExprs {s : ComposerState} (hI : Inv A s) (i : DeclId) :
    Inv A { s with module := (s.module.takeExprs i).1 } ∧
      Grows s { s with module := (s.module.takeExprs i).1 } := by
  refine inv_edit hI (by simp [Module.takeExprs_fst]) (fun j => ?_) (fun j e he => ?_)
    (fun j _ _ hd => ?_)
  · rw [Module.takeExprs_fst, Module.decl_setDecl]
    split
    · rename_i h
      rw [← h.1]
      simp [Decl.signatureShape, Decl.receiverSlots, Decl.receivers, Param.undefaulted]
    · rfl
  · rw [Module.takeExprs_fst, Module.decl_setDecl] at he
    split at he
    · simp [Decl.owned] at he
    · exact .inl he
  · rw [Module.takeExprs_fst, Module.decl_setDecl] at hd
    split at hd
    · simp [Decl.hasDefaultValues] at hd
    · exact .inl hd

/-! ## Steps that leave the arena alone -/

/-- Two states with the same arena, lowered declarations and clones, which the invariant cannot
tell apart: allocating a value or counting a call changes nothing else. -/
structure SameArena (s s' : ComposerState) : Prop where
  decls_eq : s'.module.decls = s.module.decls
  lowered_eq : s'.lowered = s.lowered
  clones_eq : s'.clones = s.clones

theorem SameArena.refl (s : ComposerState) : SameArena s s := ⟨rfl, rfl, rfl⟩

theorem SameArena.trans {s₁ s₂ s₃ : ComposerState} (h₁ : SameArena s₁ s₂) (h₂ : SameArena s₂ s₃) :
    SameArena s₁ s₃ :=
  ⟨h₂.decls_eq.trans h₁.decls_eq, h₂.lowered_eq.trans h₁.lowered_eq, h₂.clones_eq.trans h₁.clones_eq⟩

theorem SameArena.grows {s s' : ComposerState} (h : SameArena s s') : Grows s s' where
  size_le := Nat.le_of_eq (congrArg Array.size h.decls_eq.symm)
  shape_eq d _ := by rw [Module.decl_congr s.module h.decls_eq]
  lowered_sub d hd := h.lowered_eq ▸ hd
  clones_sub p hp := h.clones_eq ▸ hp

theorem SameArena.inv {s s' : ComposerState} (h : SameArena s s') (hI : Inv A s) : Inv A s' := by
  have hdecl := Module.decl_congr s.module h.decls_eq
  have hg := h.grows
  refine ⟨?_, ?_, ?_, ?_, ?_⟩
  · intro d hd
    rw [h.lowered_eq] at hd
    rw [hdecl, h.decls_eq]
    exact hI.lowered_form d hd
  · intro d hd
    rw [h.lowered_eq] at hd
    rw [hdecl]
    exact hI.no_composer d hd
  · intro p hp
    rw [h.clones_eq] at hp
    rw [hdecl, hdecl, h.decls_eq, h.lowered_eq]
    exact hI.clone_form p hp
  · intro d e he
    rw [hdecl] at he
    exact Inv.nodeFits_of_grows hg (hI.calls_fit d e he)
  · intro d hd
    rw [h.lowered_eq] at hd
    rw [hdecl]
    exact hI.masks_defaults d hd

theorem sameArena_newValue {name : String} {opts : LowerOptions} {s s' : ComposerState}
    {v : ValueId} (h : newValue name opts s = .ok (v, s')) : SameArena s s' := by
  simp only [run_newValue, Except.ok.injEq, Prod.mk.injEq] at h
  obtain ⟨-, rfl⟩ := h
  exact ⟨rfl, rfl, rfl⟩

theorem length_toList_of_isSome_eq {α : Type} {a b : Option α} (h : a.isSome = b.isSome) :
    a.toList.length = b.toList.length := by
  cases a <;> cases b <;> simp_all

/-- Renaming a receiver allocates at most one value and keeps whether there is a receiver. -/
theorem renameReceiver_ok {values values' : List (ValueId × ValueId)} {r r' : Option Param}
    {opts : LowerOptions} {s s' : ComposerState}
    (h : renameReceiver values r opts s = .ok ((r', values'), s')) :
    SameArena s s' ∧ r'.isSome = r.isSome := by
  cases r with
  | none =>
    cases h
    exact ⟨SameArena.refl s, rfl⟩
  | some p =>
    obtain ⟨v, s₁, h₁, h⟩ := bind_ok h
    cases h
    exact ⟨sameArena_newValue h₁, rfl⟩

/-- Renaming parameters allocates values only; the renamed parameters keep their origins and
lose their defaults, which are returned in order. -/
theorem renameParams_ok :
    ∀ {ps ps' : List Param} {defaults : List (Option Expr)} {values values' : List (ValueId × ValueId)}
      {opts : LowerOptions} {s s' : ComposerState},
      renameParams ps values opts s = .ok ((ps', defaults, values'), s') →
      SameArena s s' ∧ ps'.map (·.origin) = ps.map (·.origin) ∧ defaults = ps.map (·.default) ∧
        ∀ p ∈ ps', p.default = none
  | [], _, _, _, _, _, s, _, h => by
    cases h
    exact ⟨SameArena.refl s, rfl, rfl, fun _ h => nomatch h⟩
  | p :: ps, _, _, _, _, _, _, _, h => by
    rw [renameParams] at h
    obtain ⟨v, s₁, h₁, h⟩ := bind_ok h
    obtain ⟨⟨rest, defaults, values'⟩, s₂, h₂, h⟩ := bind_ok h
    cases h
    obtain ⟨harena, horigin, hdefaults, hnone⟩ := renameParams_ok h₂
    refine ⟨(sameArena_newValue h₁).trans harena, by simp [horigin], by simp [hdefaults], ?_⟩
    intro q hq
    rcases List.mem_cons.1 hq with rfl | hq
    · rfl
    · exact hnone q hq

/-- Allocating synthetic parameters allocates values only and gives each parameter its
origin, with no default. -/
theorem syntheticParams_ok :
    ∀ {sps : List SyntheticParam} {ps : List Param} {opts : LowerOptions} {s s' : ComposerState},
      syntheticParams sps opts s = .ok (ps, s') →
      SameArena s s' ∧ ps.map (·.origin) = sps.map SyntheticParam.origin ∧ ∀ p ∈ ps, p.default = none
  | [], _, _, s, _, h => by
    cases h
    exact ⟨SameArena.refl s, rfl, fun _ h => nomatch h⟩
  | sp :: sps, _, _, _, _, h => by
    unfold syntheticParams at h
    obtain ⟨v, s₁, h₁, h⟩ := bind_ok h
    obtain ⟨rest, s₂, h₂, h⟩ := bind_ok h
    cases h
    obtain ⟨harena, horigin, hnone⟩ := syntheticParams_ok h₂
    refine ⟨(sameArena_newValue h₁).trans harena, by simp [horigin], ?_⟩
    intro q hq
    rcases List.mem_cons.1 hq with rfl | hq
    · rfl
    · exact hnone q hq

/-! ## The argument words of a rewritten call -/

/-- A step that throws the error another step computes never succeeds, whatever follows. -/
theorem bind_ne_ok_of {α β : Type} {x : M α} {f : α → M β} {opts : LowerOptions}
    {s s' : ComposerState} {b : β} (hf : ∀ a opts s s' b, f a opts s ≠ .ok (b, s')) :
    (x >>= f) opts s ≠ .ok (b, s') := by
  intro h
  obtain ⟨a, s₁, -, h⟩ := bind_ok h
  exact hf _ _ _ _ _ h

theorem throw_ne_ok {α : Type} {e : LowerError} {opts : LowerOptions} {s s' : ComposerState}
    {a : α} : (throw e : M α) opts s ≠ .ok (a, s') := by
  intro h
  cases h

theorem throw_seq_ne_ok {α β : Type} {e : LowerError} {f : β → M α} {opts : LowerOptions}
    {s s' : ComposerState} {a : α} : ((throw e : M β) >>= f) opts s ≠ .ok (a, s') := by
  intro h
  obtain ⟨b, s₁, h, -⟩ := bind_ok h
  exact throw_ne_ok h

theorem throw_bind_ne_ok {α β γ : Type} {x : M γ} {g : γ → LowerError} {f : β → M α}
    {opts : LowerOptions} {s s' : ComposerState} {a : α} :
    (x >>= fun e => (throw (g e) : M β) >>= f) opts s ≠ .ok (a, s') := by
  refine bind_ne_ok_of fun _ _ _ _ _ h => ?_
  obtain ⟨b, s₁, h, -⟩ := bind_ok h
  exact throw_ne_ok h

/-- What allocating the clone of `old` does when it succeeds. The declaration has no synthetic
parameter yet; its receivers and parameters are renamed and its synthetic parameters allocated,
in that order; then the clone is appended to the arena and recorded as lowered and as the clone
of `old`. -/
theorem allocClone_eq_ok {old : DeclId} {opts : LowerOptions} {s s' : ComposerState}
    {cl : FreshClone} (h : allocClone old opts s = .ok (cl, s')) :
    ((s.module.decl old).explicitParams.any fun p =>
      p.origin.isSynthetic || p.name == SyntheticParam.composerName) = false ∧
    ∃ dispatch values₁ s₁ extension values₂ s₂ params defaults values₃ s₃ synthetic s₄,
      renameReceiver [] (s.module.decl old).dispatch opts s = .ok ((dispatch, values₁), s₁) ∧
      renameReceiver values₁ (s.module.decl old).extension opts s₁ =
        .ok ((extension, values₂), s₂) ∧
      renameParams (s.module.decl old).params values₂ opts s₂ =
        .ok ((params, defaults, values₃), s₃) ∧
      syntheticParams (Synthetic.params params.length (s.module.decl old).receiverSlots
        (requiresDefaultMask s.module (s.module.decls.size + 1) old)) opts s₃ =
        .ok (synthetic, s₄) ∧
      s' =
        { s₄ with
            module := (s₄.module.allocDecl
              { s.module.decl old with
                  dispatch, extension, params := params ++ synthetic, overrides := [],
                  body := none,
                  annotations := (s.module.decl old).annotations ++
                    linkNameFor (s.module.decl old) }).1,
            lowered := s₄.module.decls.size :: s₄.lowered,
            clones := (old, s₄.module.decls.size) :: s₄.clones,
            declarations := s₄.declarations + 1 } ∧
      cl =
        { source := s.module.decl old, new := s₄.module.decls.size, values := values₃,
          composer := ((synthetic.find? (·.origin == .composer)).map (·.value)).getD 0,
          defaults := defaults ++ synthetic.map fun _ => none,
          words := (synthetic.filter (·.origin == .defaultMask)).map (·.value) } := by
  rw [allocClone, bind_eq_ok_iff] at h
  obtain ⟨m, s₀, h₀, h⟩ := h
  cases h₀
  dsimp only at h
  split at h
  · exact absurd h throw_bind_ne_ok
  rename_i hexplicit
  obtain ⟨⟨dispatch, values₁⟩, s₁, h₁, h⟩ := bind_ok h
  obtain ⟨⟨extension, values₂⟩, s₂, h₂, h⟩ := bind_ok h
  obtain ⟨⟨params, defaults, values₃⟩, s₃, h₃, h⟩ := bind_ok h
  obtain ⟨synthetic, s₄, h₄, h⟩ := bind_ok h
  obtain ⟨s₅, s₅', h₅, h⟩ := bind_ok h
  cases h₅
  obtain ⟨u, s₆, h₆, h⟩ := bind_ok h
  cases h
  cases h₆
  exact ⟨by simpa using hexplicit, dispatch, values₁, s₁, extension, values₂, s₂, params, defaults,
    values₃, s₃, synthetic, s₄, h₁, h₂, h₃, h₄, rfl, rfl⟩

/-- Change words are zeros appended one by one. -/
theorem pushChangeWords_ok {c : Call} {owner : Nat} {opts : LowerOptions} :
    ∀ {k : Nat} {args args' : List (Option Expr)} {s s' : ComposerState},
      pushChangeWords c owner k args opts s = .ok (args', s') →
      s' = s ∧ args' = args ++ List.replicate k (some (Expr.intLit 0))
  | 0, args, _, s, _, h => by
    cases h
    exact ⟨rfl, by simp⟩
  | k + 1, args, _, _, _, h => by
    rw [pushChangeWords] at h
    split at h
    · exact absurd h throw_bind_ne_ok
    · obtain ⟨rfl, rfl⟩ := pushChangeWords_ok h
      exact ⟨rfl, by simp [List.replicate_succ]⟩

/-- The default mask of word `w` for the flags of omitted arguments, as an argument. -/
def maskArg (missing : List Bool) (w : Nat) : Option Expr :=
  some (Expr.intLit (Synthetic.packFlags
    ((missing.drop (w * Synthetic.bitsPerWord)).take Synthetic.bitsPerWord)).toInt32)

theorem bitMask_take (bits : List Bool) :
    Synthetic.bitMask (bits.take Synthetic.bitsPerWord) =
      .ok (Synthetic.packFlags (bits.take Synthetic.bitsPerWord)).toInt32 := by
  have : (bits.take Synthetic.bitsPerWord).length ≤ Synthetic.bitsPerWord := List.length_take_le _ _
  unfold Synthetic.bitMask
  rw [if_neg (Nat.not_lt.2 this)]

/-- Default masks are appended for the words `w, w + 1, …` while there is room; a word without
room is dropped, which is allowed only when no argument is omitted. -/
theorem pushDefaultMasks_ok {c : Call} {owner : Nat} {missing : List Bool} {opts : LowerOptions} :
    ∀ {w k : Nat} {args args' : List (Option Expr)} {s s' : ComposerState},
      pushDefaultMasks c owner missing w k args opts s = .ok (args', s') →
      s' = s ∧ args' = args ++ (List.range (min k (owner - args.length))).map
          (fun i => maskArg missing (w + i)) ∧
        (min k (owner - args.length) < k → missing.any id = false)
  | _, 0, args, _, s, _, h => by
    cases h
    exact ⟨rfl, by simp, fun h => absurd h (Nat.not_lt_zero _)⟩
  | w, k + 1, args, _, _, _, h => by
    rw [pushDefaultMasks] at h
    split at h
    · rename_i hroom
      obtain ⟨mask, s₁, h₁, h⟩ := bind_ok h
      obtain ⟨hmask, rfl⟩ := liftFault_ok h₁
      rw [bitMask_take] at hmask
      cases hmask
      obtain ⟨rfl, rfl, hskip⟩ := pushDefaultMasks_ok h
      have hj : min (k + 1) (owner - args.length) = min k (owner - (args ++ [maskArg missing w]).length) + 1 := by
        simp only [List.length_append, List.length_singleton]
        omega
      refine ⟨rfl, ?_, ?_⟩
      · rw [hj, List.range_succ_eq_map]
        simp only [List.length_append, List.length_singleton, List.map_cons, List.map_map,
          Nat.add_zero, List.append_assoc, List.singleton_append]
        refine congrArg (fun l => args ++ maskArg missing w :: l) (List.map_congr_left ?_)
        intro i _
        exact congrArg (maskArg missing) (by simp only [Nat.succ_eq_add_one]; omega)
      · intro hlt
        simp only [List.length_append, List.length_singleton] at hskip
        exact hskip (by omega)
    · rename_i hroom
      split at h
      · exact absurd h (bind_ne_ok_of fun _ _ _ _ _ => throw_ne_ok)
      · rename_i hnone
        obtain ⟨rfl, rfl, -⟩ := pushDefaultMasks_ok h
        have hzero : owner - args.length = 0 := by omega
        refine ⟨rfl, by simp [hzero], fun _ => by simpa using hnone⟩

/-! ## Calls -/

/-- A declaration marked composable exists. -/
theorem lt_of_isMarkedComposable {m : Module} {d : DeclId}
    (h : (m.decl d).isMarkedComposable = true) : d < m.decls.size :=
  Nat.lt_of_not_le fun hle => by
    rw [Module.decl_of_size_le hle] at h
    exact absurd h (by decide)

/-- A call and all the expressions in it fit, whatever the type of the node. -/
def CallFit (A : Prop) (s : ComposerState) (c : Call) : Prop := (Expr.ofCall c Ty.unit).All (NodeFits A s)

theorem all_ofCall_iff {s : ComposerState} {c : Call} {t : Ty} :
    (Expr.ofCall c t).All (NodeFits A s) ↔ CallFit A s c := by
  unfold CallFit
  rw [Expr.all_iff, Expr.all_iff]
  exact Iff.rfl

theorem stable_callFit : Stable fun (c : Call) s => CallFit A s c :=
  fun c => stable_all_nodeFits (Expr.ofCall c Ty.unit)

/-- A call marked as rewritten fits when its target takes its argument count and each of its
arguments was an argument before or fits. -/
theorem callFit_rewritten {s : ComposerState} {c : Call} {target : CallTarget}
    {args : List (Option Expr)} (hc : CallFit A s c) (htarget : FitsTarget s target args.length)
    (hargs : ∀ a ∈ args.filterMap id, a ∈ c.args.filterMap id ∨ a.All (NodeFits A s)) :
    CallFit A s { c with target, args, composable := true } := by
  unfold CallFit at hc ⊢
  rw [Expr.all_iff] at hc ⊢
  refine ⟨by simpa [NodeFits] using htarget, fun x hx => ?_⟩
  exact (Expr.mem_children_rewritten hargs hx).elim (hc.2 x) id

/-- A filled argument is an argument given or the placeholder for a parameter's default. -/
theorem mem_filledArgs_or_placeholder {m : Module} {target : CallTarget}
    {args : List (Option Expr)} {a : Expr} (h : a ∈ (filledArgs m target args).filterMap id) :
    a ∈ args.filterMap id ∨ ∃ p, defaultArgumentFor p = some a := by
  simp only [filledArgs, List.filterMap_map, List.mem_filterMap, Function.comp, id] at h
  obtain ⟨⟨o, i⟩, hmem, hsome⟩ := h
  have ho : o ∈ args := List.fst_mem_of_mem_zipIdx hmem
  cases o with
  | some x =>
    cases hsome
    exact .inl (List.mem_filterMap.2 ⟨some a, ho, rfl⟩)
  | none =>
    right
    cases target with
    | decl t =>
      obtain ⟨p, -, hp⟩ := Option.bind_eq_some_iff.1 hsome
      exact ⟨p, hp⟩
    | invoke _ => cases hsome
    | decoy => cases hsome

/-- A filled argument is an argument given or a placeholder, which holds no call. -/
theorem mem_filledArgs {m : Module} {target : CallTarget} {args : List (Option Expr)} {a : Expr}
    (h : a ∈ (filledArgs m target args).filterMap id) :
    a ∈ args.filterMap id ∨ a.All fun x => x.callShape? = none :=
  (mem_filledArgs_or_placeholder h).imp_right fun ⟨_, hp⟩ => defaultArgumentFor_noCalls hp

/-- A rewritten call: the filled arguments, the composer, zero change words and the default
masks that fit, exactly `owner` of them; the counter of rewritten calls goes up by one. -/
theorem rewriteCall_ok {k : ValueId} {c c' : Call} {target : CallTarget} {owner receivers : Nat}
    {hasDefaults : Bool} {opts : LowerOptions} {s s' : ComposerState}
    (h : rewriteCall k c target owner receivers hasDefaults opts s = .ok (c', s')) :
    let head := filledArgs s.module target c.args ++ [some (.get k Ty.composer.withNullable)] ++
      List.replicate (Synthetic.changedWordCount c.args.length receivers) (some (Expr.intLit 0))
    let words := if hasDefaults then Synthetic.defaultWordCount c.args.length else 0
    s' = { s with calls := s.calls + 1 } ∧
    c' = { c with target, composable := true,
                  args := head ++ (List.range (min words (owner - head.length))).map
                    (maskArg (c.args.map Option.isNone)) } ∧
    head.length + min words (owner - head.length) = owner ∧
    (min words (owner - head.length) < words → (c.args.map Option.isNone).any id = false) := by
  intro head words
  unfold rewriteCall at h
  split at h
  · exact absurd h throw_seq_ne_ok
  rw [bind_eq_ok_iff] at h
  obtain ⟨m, s₁, h₁, h⟩ := h
  cases h₁
  rw [bind_eq_ok_iff] at h
  obtain ⟨args₁, s₂, h₂, h⟩ := h
  obtain ⟨rfl, rfl⟩ := pushChangeWords_ok h₂
  rw [bind_eq_ok_iff] at h
  obtain ⟨args₂, s₃, h₃, h⟩ := h
  obtain ⟨rfl, rfl, hskip⟩ := pushDefaultMasks_ok h₃
  -- the count of default masks is fixed before the length check is split
  generalize hw : (if hasDefaults = true then Synthetic.defaultWordCount c.args.length else 0) = w
    at h hskip
  split at h
  · exact absurd h throw_bind_ne_ok
  rename_i hlen
  rw [bind_eq_ok_iff] at h
  obtain ⟨u, s₄, h₄, h⟩ := h
  cases h₄
  cases h
  subst hw
  refine ⟨rfl, by simp [head, words], ?_, hskip⟩
  simp only [head, words, List.length_append, List.length_map, List.length_range,
    List.length_singleton, List.length_replicate] at hlen ⊢
  omega

end Composer

end ComposeLowering
