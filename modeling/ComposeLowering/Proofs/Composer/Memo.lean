import ComposeLowering.Proofs.Idempotence

/-!
# The records of a transformer

Besides its module, a transformer keeps two records: `clones` pairs each declaration it cloned
with its clone, latest first, and `lowered` lists the declarations it found or made in lowered
form. `lowerDecl` consults them before it clones: a declaration recorded as lowered, or with a
clone recorded, is answered from the records. `allocClone` writes both records as it appends
the clone, before the clone's overrides, defaults and body are lowered, so that a walk that
comes back to the declaration finds the clone.

`Memo n s` states what the records of a transformer started over a module of `n` declarations
hold: the clones are exactly the declarations appended since, each recorded as lowered, under
distinct declarations that need a clone, and every recorded declaration has a composer
parameter. `memo s d` is what the records answer for `d`; under `Memo`, `lowerDecl` gives that
answer without allocating (`lowerDecl_of_memo`).

Every walk keeps `Memo` while the records only grow (`MemoWalks`, proved for every fuel by
induction as `walks` is), and so does a whole run. The records are therefore consistent after
any sequence of successful calls of `lowerDecl`, `lowerCall` and `lowerModule` on one
transformer (`Reaches`), and lowering is idempotent there (`lowering_memoized`).
-/

namespace ComposeLowering

namespace Composer

/-- In a list of pairs with distinct keys, a key looks up the value paired with it. -/
theorem lookup_eq_some_of_mem {l : List (DeclId × DeclId)} {a b : DeclId}
    (hk : (l.map Prod.fst).Nodup) (h : (a, b) ∈ l) : l.lookup a = some b := by
  induction l with
  | nil => cases h
  | cons p l ih =>
    obtain ⟨k, v⟩ := p
    obtain ⟨hnew, hk⟩ := List.nodup_cons.1 hk
    rw [List.lookup_cons]
    rcases List.mem_cons.1 h with heq | hmem
    · cases heq
      simp
    · -- a key further down differs from the first one
      have hne : a ≠ k := by
        rintro rfl
        exact hnew (List.mem_map.2 ⟨_, hmem, rfl⟩)
      rw [beq_false_of_ne hne]
      exact ih hk hmem

/-! ## Consistent records -/

/-- The records of a transformer started over a module of `n` declarations. -/
structure Memo (n : Nat) (s : ComposerState) : Prop where
  registered : Registered s
  /-- The clones are the declarations appended since the start, latest first. -/
  allocated : s.clones.map Prod.snd = (List.range' n s.declarations).reverse
  size_eq : s.module.decls.size = n + s.declarations
  /-- No declaration has two clones, and only a declaration that needs a clone has one. -/
  keys_nodup : (s.clones.map Prod.fst).Nodup
  needsClone : ∀ p ∈ s.clones, (s.module.decl p.1).needsClone = true
  /-- Every clone is recorded as lowered. -/
  clone_lowered : ∀ p ∈ s.clones, p.2 ∈ s.lowered

/-- The lowered form the records give a declaration: its recorded clone when it needs one, and
the declaration itself when it needs none. -/
def memo (s : ComposerState) (d : DeclId) : Option DeclId :=
  if (s.module.decl d).needsClone then s.clones.lookup d else some d

/-- A fresh transformer has consistent records. -/
theorem memo_start (m : Module) : Memo m.decls.size { module := m } where
  registered := ⟨fun _ h => (nomatch h), fun _ h => (nomatch h)⟩
  allocated := rfl
  size_eq := rfl
  keys_nodup := List.nodup_nil
  needsClone _ h := nomatch h
  clone_lowered _ h := nomatch h

/-- A declaration that needs a clone lies in the arena. -/
theorem lt_of_needsClone {m : Module} {d : DeclId} (h : (m.decl d).needsClone = true) :
    d < m.decls.size := by
  simp only [Decl.needsClone, Bool.and_eq_true] at h
  exact lt_of_isMarkedComposable h.1.1.1

/-- A declaration that needs a clone keeps needing one along a framed walk: its core stays. -/
theorem Framed.needsClone {s s' : ComposerState} (hf : Framed s s') {d : DeclId}
    (h : (s.module.decl d).needsClone = true) : (s'.module.decl d).needsClone = true := by
  rw [← Decl.needsClone_core, hf.core_eq d (lt_of_needsClone h), Decl.needsClone_core]
  exact h

namespace Memo

variable {n : Nat} {s : ComposerState} {d r : DeclId}

theorem length_clones (h : Memo n s) : s.clones.length = s.declarations := by
  simpa using congrArg List.length h.allocated

theorem lookup_of_mem (h : Memo n s) (hp : (d, r) ∈ s.clones) : s.clones.lookup d = some r :=
  lookup_eq_some_of_mem h.keys_nodup hp

/-- Two declarations recorded with the same clone are the same: clones are allocated one by
one. -/
theorem key_unique (h : Memo n s) {a a' b : DeclId} (ha : (a, b) ∈ s.clones)
    (ha' : (a', b) ∈ s.clones) : a = a' := by
  have hnodup : (s.clones.map Prod.snd).Nodup := by
    rw [h.allocated]
    exact List.nodup_reverse.2 List.nodup_range'
  exact congrArg Prod.fst (List.inj_on_of_nodup_map hnodup ha ha' rfl)

/-- A declaration that needs no clone has none recorded. -/
theorem lookup_eq_none (h : Memo n s) (hn : (s.module.decl d).needsClone = false) :
    s.clones.lookup d = none := by
  cases hl : s.clones.lookup d with
  | none => rfl
  | some r =>
    have := h.needsClone _ (mem_of_lookup_eq_some hl)
    simp_all

theorem memo_of_mem (h : Memo n s) (hp : (d, r) ∈ s.clones) : memo s d = some r := by
  rw [memo, if_pos (h.needsClone _ hp), h.lookup_of_mem hp]

/-- A recorded declaration is its own lowered form. -/
theorem memo_of_lowered (h : Memo n s) (hd : d ∈ s.lowered) : memo s d = some d := by
  rw [memo, if_neg (by simp [Decl.needsClone_eq_false_of_hasComposer (h.registered.lowered d hd)])]

/-- An edit of the module that changes, in each declaration, only what `forget` drops, where
dropping it keeps whether a declaration needs a clone and whether it has a composer parameter,
keeps the records consistent. -/
theorem agrees {forget : Decl → Decl} (h : Memo n s) {m' : Module}
    (ha : s.module.Agrees forget m')
    (hf : ∀ x, (forget x).needsClone = x.needsClone ∧ (forget x).hasComposer = x.hasComposer) :
    Memo n { s with module := m' } := by
  have hc : ∀ d, (m'.decl d).hasComposer = (s.module.decl d).hasComposer :=
    ha.congr fun x => (hf x).2
  exact ⟨⟨fun d hd => (hc d).trans (h.registered.lowered d hd),
      fun p hp => (hc p.2).trans (h.registered.clones p hp)⟩,
    h.allocated, ha.size_eq.trans h.size_eq, h.keys_nodup,
    fun p hp => (ha.congr (fun x => (hf x).1) p.1).trans (h.needsClone p hp), h.clone_lowered⟩

/-- An edit of the module that keeps its size and every core keeps the records consistent. -/
theorem core (h : Memo n s) {m' : Module} (hsize : m'.decls.size = s.module.decls.size)
    (hcore : ∀ d, (m'.decl d).core = (s.module.decl d).core) : Memo n { s with module := m' } :=
  h.agrees ⟨hsize, hcore⟩ fun x => ⟨Decl.needsClone_core x, Decl.hasComposer_core x⟩

/-- Recording a declaration with a composer parameter as lowered keeps the records
consistent. -/
theorem markLowered (h : Memo n s) (hd : (s.module.decl d).hasComposer = true) :
    Memo n { s with lowered := d :: s.lowered } :=
  { h with
    registered := (framed_markLowered hd).registered h.registered
    clone_lowered := fun p hp => List.mem_cons_of_mem _ (h.clone_lowered p hp) }

theorem countCall (h : Memo n s) : Memo n { s with calls := s.calls + 1 } :=
  ⟨⟨h.registered.lowered, h.registered.clones⟩, h.allocated, h.size_eq, h.keys_nodup, h.needsClone,
    h.clone_lowered⟩

/-- Allocating the clone of a declaration that needs one and has none keeps the records
consistent. -/
theorem alloc (h : Memo n s) {old : DeclId} {opts : LowerOptions} {cl : FreshClone}
    {s' : ComposerState} (hnone : s.clones.lookup old = none)
    (hneeds : (s.module.decl old).needsClone = true) (ha : allocClone old opts s = .ok (cl, s')) :
    Memo n s' ∧ s'.clones = (old, cl.new) :: s.clones := by
  obtain ⟨hf, hnew, -⟩ := allocClone_fresh ha
  obtain ⟨hclones, hlowered, hdecl, hsize⟩ := allocClone_records ha
  refine ⟨⟨hf.registered h.registered, ?_, ?_, ?_, ?_, ?_⟩, hclones⟩
  · -- the clone is the next declaration of the arena
    rw [hclones, hdecl, List.map_cons, h.allocated, List.range'_concat, List.reverse_append,
      hnew, h.size_eq]
    simp
  · rw [hsize, hdecl, h.size_eq]
    rfl
  · rw [hclones, List.map_cons, List.nodup_cons]
    refine ⟨fun hmem => ?_, h.keys_nodup⟩
    obtain ⟨p, hp, rfl⟩ := List.mem_map.1 hmem
    simpa using List.lookup_eq_none_iff.1 hnone p hp
  · intro p hp
    rw [hclones] at hp
    rcases List.mem_cons.1 hp with rfl | hp
    · exact hf.needsClone hneeds
    · exact hf.needsClone (h.needsClone p hp)
  · intro p hp
    rw [hclones] at hp
    rw [hlowered]
    rcases List.mem_cons.1 hp with rfl | hp
    · exact List.mem_cons_self
    · exact List.mem_cons_of_mem _ (h.clone_lowered p hp)

end Memo

/-- From consistent records, `lowerDecl` gives what the records answer, changing at most which
declarations are recorded as lowered. -/
theorem lowerDecl_of_memo {n : Nat} {s : ComposerState} {d r : DeclId} (hM : Memo n s)
    (hr : memo s d = some r) (fuel : Nat) (opts : LowerOptions) :
    ∃ s', lowerDecl fuel d opts s = .ok (r, s') ∧ Idle s s' := by
  rw [memo] at hr
  split at hr
  · next hn =>
    -- a declaration that needs a clone is not recorded as lowered, and passes every guard
    have hlow : d ∉ s.lowered := fun hd =>
      absurd hn (by simp [Decl.needsClone_eq_false_of_hasComposer (hM.registered.lowered d hd)])
    rw [needsClone_decl] at hn
    simp only [Bool.and_eq_true, Bool.not_eq_true'] at hn
    refine ⟨s, ?_, ⟨rfl, rfl, rfl, rfl⟩⟩
    rw [lowerDecl.eq_def, run_bind, run_get]
    simp only [Except.bind]
    simp [hlow, hn, hr]
  · next hn =>
    cases hr
    rcases lowerDecl_of_needsClone_false fuel opts (Bool.of_not_eq_true hn)
      (hM.lookup_eq_none (Bool.of_not_eq_true hn)) with h | h
    · exact ⟨s, h, ⟨rfl, rfl, rfl, rfl⟩⟩
    · exact ⟨_, h, ⟨rfl, rfl, rfl, rfl⟩⟩

/-- What the records answer is the declaration itself or a lowered declaration, which the
records answer for itself. -/
theorem Memo.memo_cases {n : Nat} {s : ComposerState} {d r : DeclId} (hM : Memo n s)
    (hr : memo s d = some r) : (r = d ∨ r ∈ s.lowered) ∧ memo s r = some r := by
  rw [memo] at hr
  split at hr
  · have hl := hM.clone_lowered _ (mem_of_lookup_eq_some hr)
    exact ⟨.inr hl, hM.memo_of_lowered hl⟩
  · cases hr
    exact ⟨.inl rfl, by rwa [memo, if_neg]⟩

/-! ## The walks keep the records consistent -/

/-- Records only grow: the clones recorded before a step are a suffix of those after it. -/
def recording : Growth ComposerState :=
  ⟨fun s s' => s.clones <:+ s'.clones, fun s => List.suffix_refl s.clones,
    fun h₁ h₂ => List.IsSuffix.trans h₁ h₂⟩

/-- The step `x`, run from a state with consistent records for a start of `n` declarations
that satisfies `P`, ends when it succeeds with consistent records, having only added clones,
in a state satisfying `Q` with the result, for every choice of options. -/
def Memoizes {α : Type} (n : Nat) (P : ComposerState → Prop) (x : M α)
    (Q : α → ComposerState → Prop) : Prop :=
  ∀ opts, (sem opts).Triple recording (Memo n) P x Q

/-- What the walks keep of the records, at one fuel. -/
structure MemoWalks (n fuel : Nat) : Prop where
  /-- The lowered form of a declaration is what the records then answer for it. -/
  lowerDecl : ∀ d, Memoizes n (fun _ => True) (lowerDecl fuel d) fun r s => memo s d = some r
  /-- A clone is recorded as the clone of the declaration it replaces. -/
  clone : ∀ d, Memoizes n (fun s => s.clones.lookup d = none ∧ (s.module.decl d).needsClone = true)
    (cloneWithComposer fuel d) fun r s => (d, r) ∈ s.clones
  lowerCall : ∀ k c, Memoizes n (fun _ => True) (lowerCall fuel k c) fun _ _ => True
  bodyNested : ∀ fr d, Memoizes n (fun _ => True) (bodyNested fuel fr d) fun _ _ => True

variable {n fuel : Nat}

theorem memoizes_throw {α : Type} {P : ComposerState → Prop} {Q : α → ComposerState → Prop}
    (e : LowerError) : Memoizes n P (throw e : M α) Q :=
  fun _ _ _ _ h => absurd h throw_ne_ok

theorem memoizes_getModule {P : ComposerState → Prop} :
    Memoizes n P getModule fun _ s => P s := by
  intro opts s a s' h hM hP
  cases h
  exact ⟨hM, recording.refl s, hP⟩

/-- Lowering a declaration's defaults and body in place keeps the records consistent when the
walk does. -/
theorem memoizes_mapExprs {f : Expr → M Expr}
    (hf : ∀ e, Memoizes n (fun _ => True) (f e) fun _ _ => True) (d : DeclId) :
    Memoizes n (fun _ => True) (mapExprs f d) fun _ _ => True := by
  intro opts s u s' h hM _
  obtain ⟨defaults, s₃, body, s₄, h₃, h₄, rfl⟩ := mapExprs_eq_ok.1 h
  have hM₂ := hM.core (by simp [Module.takeExprs_fst]) (core_takeExprs s.module d)
  obtain ⟨hM₃, hg₃, -⟩ := StepSemantics.Triple.mapM (Q := fun _ _ _ => True)
    (fun _ _ _ _ _ _ => trivial) (fun _ _ _ _ => trivial) _
    (fun o _ => (StepSemantics.Triple.option o fun e _ => hf e opts).mono (fun _ h => h)
      fun _ _ _ => trivial) _ defaults s₃ h₃ hM₂ trivial
  obtain ⟨hM₄, hg₄, -⟩ := StepSemantics.Triple.option _ (fun e _ => hf e opts) s₃ body s₄ h₄
    hM₃ trivial
  exact ⟨hM₄.core (Module.decls_size_modifyDecl _ _ _) fun x => core_putExprs _ d x _,
    recording.trans hg₃ hg₄, trivial⟩

section Rewrite

variable {onCall : Call → M Call} {onNested : DeclId → M DeclId}
  (hcall : ∀ c, Memoizes n (fun _ => True) (onCall c) fun _ _ => True)
  (hnested : ∀ d, Memoizes n (fun _ => True) (onNested d) fun _ _ => True)
include hcall hnested

/-- Rewriting an expression keeps the records consistent when the walks it hands its calls and
nested functions to do. -/
theorem memoizes_rewriteExpr (fr : BodyFrame) (e : Expr) :
    Memoizes n (fun _ => True) (rewriteExpr onCall onNested fr e) fun _ _ => True := by
  intro opts
  rw [rewriteExpr]
  refine StepSemantics.Triple.bind (StepSemantics.Triple.mapChildrenM_fnDecl (R := fun _ _ => True) e
    (fun _ _ _ _ h => h) (fun _ _ _ h => h)
    (fun c hc => memoizes_rewriteExpr fr c opts) fun d _ => hnested d opts) fun e' => ?_
  split
  · exact StepSemantics.Triple.pure _ fun _ _ => trivial
  · exact StepSemantics.Triple.pure _ fun _ _ => trivial
  · exact StepSemantics.Triple.pure _ fun _ _ => trivial
  · split
    · exact StepSemantics.Triple.pure _ fun _ _ => trivial
    · exact StepSemantics.Triple.bind ((hcall _ opts).mono (fun _ _ => trivial) fun _ _ h => h)
        fun _ => StepSemantics.Triple.pure _ fun _ _ => trivial
  · exact StepSemantics.Triple.pure _ fun _ _ => trivial
termination_by sizeOf e
decreasing_by exact Expr.sizeOf_lt_of_mem_children hc

end Rewrite

/-- Finding the lowered form of a declaration keeps the records consistent, and gives what they
then answer, when cloning one, at the fuel below, does. -/
theorem memoizes_lowerDecl
    (hclone : ∀ f, fuel = f + 1 → ∀ d, Memoizes n
      (fun s => s.clones.lookup d = none ∧ (s.module.decl d).needsClone = true)
      (cloneWithComposer f d) fun r s => (d, r) ∈ s.clones) (d : DeclId) :
    Memoizes n (fun _ => True) (lowerDecl fuel d) fun r s => memo s d = some r := by
  intro opts s r s' h hM _
  change lowerDecl fuel d opts s = .ok (r, s') at h
  rcases lowerDecl_eq_ok h with ⟨rfl, rfl, hlow | hn⟩ | ⟨rfl, hcl⟩ | ⟨hcomposer, -, rfl, rfl⟩ |
    ⟨hdone, hneeds, f, rfl, hrun⟩
  · exact ⟨hM, recording.refl _, hM.memo_of_lowered hlow⟩
  · -- the declaration needs no clone, so the records answer it for itself
    refine ⟨hM, recording.refl _, ?_⟩
    dsimp only
    rw [memo, if_neg (by simp [hn])]
  · exact ⟨hM, recording.refl _, hM.memo_of_mem hcl⟩
  · refine ⟨hM.markLowered hcomposer, recording.refl _, ?_⟩
    dsimp only
    rw [memo, if_neg (by simp [Decl.needsClone_eq_false_of_hasComposer hcomposer])]
  · obtain ⟨hM', hg, hc⟩ := hclone f rfl d opts s r s' hrun hM ⟨hdone, hneeds⟩
    exact ⟨hM', hg, hM'.memo_of_mem hc⟩

/-- The walk of a clone records it before lowering its overrides, defaults and body, and keeps
the records consistent. -/
theorem memoizes_clone (ih : MemoWalks n fuel) (old : DeclId) :
    Memoizes n (fun s => s.clones.lookup old = none ∧ (s.module.decl old).needsClone = true)
      (cloneWithComposer (fuel + 1) old) fun r s => (old, r) ∈ s.clones := by
  intro opts s r s' h hM ⟨hnone, hneeds⟩
  change cloneWithComposer (fuel + 1) old opts s = .ok (r, s') at h
  obtain ⟨cl, s₁, overrides, s₂, s₃, defaults', s₄, body, s₅, u, h₁, h₂, h₃, h₄, h₅, h₈, rfl⟩ :=
    cloneWithComposer_succ_eq_ok h
  obtain ⟨hM₁, hclones⟩ := hM.alloc hnone hneeds h₁
  -- the overrides are lowered, then set on the clone
  obtain ⟨hM₂, hg₂, -⟩ := StepSemantics.Triple.mapM (Q := fun _ _ _ => True)
    (fun _ _ _ _ _ _ => trivial) (fun _ _ _ _ => trivial) _
    (fun a _ => (ih.lowerDecl a opts).mono (fun _ _ => trivial) fun _ _ _ => trivial)
    s₁ overrides s₂ h₂ hM₁ trivial
  have hs₃ := modifyModule_ok h₃
  subst hs₃
  have ha : s₂.module.Agrees (fun x => { x with overrides := [] })
      (s₂.module.modifyDecl cl.new fun x => { x with overrides }) :=
    Module.Agrees.modifyDecl (f := fun x => { x with overrides }) (fun _ => rfl) cl.new
  have hM₃ := hM₂.agrees ha fun _ => ⟨rfl, rfl⟩
  -- the defaults and the body are lowered and put in
  have hwalk := memoizes_rewriteExpr (ih.lowerCall cl.composer) (ih.bodyNested
    { old, new := cl.new, values := cl.values, composer := cl.composer, nested := false })
  obtain ⟨hM₄, hg₄, -⟩ := StepSemantics.Triple.mapM (Q := fun _ _ _ => True)
    (fun _ _ _ _ _ _ => trivial) (fun _ _ _ _ => trivial) _
    (fun o _ => (StepSemantics.Triple.option o fun e _ => hwalk _ e opts).mono (fun _ h => h)
      fun _ _ _ => trivial) _ defaults' s₄ h₄ hM₃ trivial
  obtain ⟨hM₅, hg₅, -⟩ := StepSemantics.Triple.option _ (fun e _ => hwalk _ e opts) s₄ body s₅ h₅
    hM₄ trivial
  rw [modifyModule_ok h₈]
  have hgrow : s₁.clones <:+ s₅.clones := recording.trans hg₂ (recording.trans hg₄ hg₅)
  refine ⟨hM₅.core (Module.decls_size_modifyDecl _ _ _) fun x => core_putExprs _ _ x _, ?_,
    hgrow.subset (by rw [hclones]; exact List.mem_cons_self)⟩
  show s.clones <:+ s₅.clones
  exact List.IsSuffix.trans (by rw [hclones]; exact List.suffix_cons _ _) hgrow

/-- Finding the target of a call keeps the records consistent when finding a lowered form
does. -/
theorem memoizes_targetShape {lower : DeclId → M DeclId}
    (hlower : ∀ d, Memoizes n (fun _ => True) (lower d) fun _ _ => True) (c : Call) :
    Memoizes n (fun _ => True) (targetShape lower c) fun _ _ => True := by
  intro opts s sh s' h hM _
  change targetShape lower c opts s = .ok (sh, s') at h
  rcases targetShape_eq_ok h with ⟨rfl, -⟩ | ⟨t, owner, -, -, hl, -⟩
  · exact ⟨hM, recording.refl _, trivial⟩
  · obtain ⟨hM', hg, -⟩ := hlower t opts s owner s' hl hM trivial
    exact ⟨hM', hg, trivial⟩

/-- Lowering a call keeps the records consistent when finding lowered forms does: rewriting it
only counts it. -/
theorem memoizes_lowerCall
    (hlower : ∀ d, Memoizes n (fun _ => True) (lowerDecl fuel d) fun _ _ => True) (k : ValueId)
    (c : Call) : Memoizes n (fun _ => True) (lowerCall (fuel + 1) k c) fun _ _ => True := by
  intro opts s c' s' h hM _
  change lowerCall (fuel + 1) k c opts s = .ok (c', s') at h
  rw [lowerCall] at h
  split at h
  · cases h
    exact ⟨hM, recording.refl s, trivial⟩
  obtain ⟨shape, s₁, h₁, h⟩ := bind_ok h
  obtain ⟨hM₁, hg₁, -⟩ := memoizes_targetShape hlower c opts s shape s₁ h₁ hM trivial
  rcases shape with _ | ⟨target, owner, receivers, hasDefaults⟩
  · cases h
    exact ⟨hM₁, hg₁, trivial⟩
  · obtain ⟨rfl, -⟩ := rewriteCall_ok h
    exact ⟨hM₁.countCall, hg₁, trivial⟩

/-- Lowering a nested function in place keeps the records consistent. -/
theorem memoizes_bodyNested
    (hcall : ∀ k c, Memoizes n (fun _ => True) (lowerCall fuel k c) fun _ _ => True)
    (hnested : ∀ fr d, Memoizes n (fun _ => True) (bodyNested fuel fr d) fun _ _ => True)
    (fr : BodyFrame) (d : DeclId) :
    Memoizes n (fun _ => True) (bodyNested (fuel + 1) fr d) fun _ _ => True := by
  intro opts
  rw [bodyNested]
  refine StepSemantics.Triple.bind (memoizes_getModule opts) fun m => ?_
  exact StepSemantics.Triple.bind (memoizes_mapExprs
    (memoizes_rewriteExpr (hcall _) (hnested _) _) d opts) fun _ =>
      StepSemantics.Triple.pure _ fun _ _ => trivial

/-- Every walk keeps the records consistent at every fuel: at zero fuel each fails as soon as
it would step to another declaration, and at `fuel + 1` each is proved from the walks at
`fuel`. -/
theorem memoWalks : ∀ fuel, MemoWalks n fuel
  | 0 => ⟨memoizes_lowerDecl fun _ h => absurd h (Nat.succ_ne_zero _).symm,
      fun _ => by rw [cloneWithComposer]; exact memoizes_throw _,
      fun _ _ => by rw [lowerCall]; exact memoizes_throw _,
      fun _ _ => by rw [bodyNested]; exact memoizes_throw _⟩
  | fuel + 1 =>
    have ih := memoWalks fuel
    ⟨memoizes_lowerDecl fun _ h => Nat.succ.inj h ▸ ih.clone, memoizes_clone ih,
      memoizes_lowerCall fun d opts =>
        (ih.lowerDecl d opts).mono (fun _ h => h) fun _ _ _ => trivial,
      memoizes_bodyNested ih.lowerCall ih.bodyNested⟩

/-! ## Whole runs -/

/-- Replacing the functions nested in an expression keeps the records consistent when the walk
visiting them does. -/
theorem memoizes_mapNestedM {g : DeclId → M DeclId}
    (hg : ∀ d, Memoizes n (fun _ => True) (g d) fun _ _ => True) (e : Expr) :
    Memoizes n (fun _ => True) (e.mapNestedM g) fun _ _ => True := by
  intro opts
  rw [Expr.mapNestedM]
  exact (StepSemantics.Triple.mapChildrenM_fnDecl (R := fun _ _ => True) e (fun _ _ _ _ h => h)
    (fun _ _ _ h => h) (fun c hc => memoizes_mapNestedM hg c opts) fun d _ => hg d opts).mono
    (fun _ h => h) fun _ _ _ => trivial
termination_by sizeOf e
decreasing_by exact Expr.sizeOf_lt_of_mem_children hc

/-- Visiting a declaration, and the functions nested in it, keeps the records consistent at
every fuel. -/
theorem memoizes_visitDecl : ∀ fuel d,
    Memoizes n (fun _ => True) (visitDecl fuel d) fun _ _ => True
  | 0, _ => by rw [visitDecl]; exact memoizes_throw _
  | fuel + 1, d => by
    intro opts
    rw [visitDecl]
    refine StepSemantics.Triple.bind (((memoWalks fuel).lowerDecl d opts).mono (fun _ h => h)
      fun _ _ _ => trivial) fun d' => ?_
    exact StepSemantics.Triple.bind (memoizes_mapExprs (memoizes_mapNestedM
      (memoizes_visitDecl fuel)) d' opts) fun _ => StepSemantics.Triple.pure _ fun _ _ => trivial

theorem memoizes_reparent {g : Module → Module} (hg : ∀ m : Module, m.Reparented (g m)) :
    Memoizes n (fun _ => True) (modifyModule g) fun _ _ => True := by
  intro opts s u s' h hM _
  rw [modifyModule_ok h]
  exact ⟨hM.agrees (hg s.module) fun _ => ⟨rfl, rfl⟩, recording.refl s, trivial⟩

/-- Lowering a whole module keeps the records consistent. -/
theorem memoizes_lowerModule : Memoizes n (fun _ => True) lowerModule fun _ _ => True := by
  intro opts
  unfold lowerModule
  refine StepSemantics.Triple.bind (memoizes_getModule opts) fun m => ?_
  refine StepSemantics.Triple.bind (StepSemantics.Triple.forIn _ _ fun c _ _ => ?_) fun _ =>
    memoizes_reparent (fun _ => Module.reparented_patchParents) opts
  refine StepSemantics.Triple.bind (memoizes_getModule opts) fun m' => ?_
  refine StepSemantics.Triple.bind (StepSemantics.Triple.forIn _ _ fun member _ _ => ?_)
    fun _ => StepSemantics.Triple.pure _ fun _ h => h
  refine StepSemantics.Triple.bind (memoizes_visitDecl _ member opts) fun new => ?_
  refine StepSemantics.Triple.ite _ ?_ (StepSemantics.Triple.pure _ fun _ h => h)
  exact StepSemantics.Triple.bind (memoizes_reparent
    (fun _ => Module.reparented_replaceMember c member new) opts) fun _ =>
      StepSemantics.Triple.pure _ fun _ h => h

/-- The states a transformer started over `m` reaches by successful calls, one after another,
each finding the lowered form of a declaration, lowering a call, or lowering the whole module,
at any fuel. -/
inductive Reaches (opts : LowerOptions) (m : Module) : ComposerState → Prop
  | start : Reaches opts m { module := m }
  | lowerDecl {s s' : ComposerState} {fuel : Nat} {d r : DeclId} :
      Reaches opts m s → lowerDecl fuel d opts s = .ok (r, s') → Reaches opts m s'
  | lowerCall {s s' : ComposerState} {fuel : Nat} {k : ValueId} {c c' : Call} :
      Reaches opts m s → lowerCall fuel k c opts s = .ok (c', s') → Reaches opts m s'
  | lowerModule {s s' : ComposerState} {u : Unit} :
      Reaches opts m s → lowerModule opts s = .ok (u, s') → Reaches opts m s'

/-- Every state a transformer reaches has consistent records. -/
theorem memo_of_reaches {opts : LowerOptions} {m : Module} {s : ComposerState}
    (h : Reaches opts m s) : Memo m.decls.size s := by
  induction h with
  | start => exact memo_start m
  | lowerDecl _ hrun ih => exact ((memoWalks _).lowerDecl _ opts _ _ _ hrun ih trivial).1
  | lowerCall _ hrun ih => exact ((memoWalks _).lowerCall _ _ opts _ _ _ hrun ih trivial).1
  | lowerModule _ hrun ih => exact (memoizes_lowerModule opts _ _ _ hrun ih trivial).1

/-- The records of a transformer stay consistent, and lowering through them is idempotent:
after any sequence of successful calls on a transformer over `m`,
* no two declarations share a clone, and every clone is recorded as lowered;
* lowering any declaration gives it back or gives a lowered declaration; lowering that result,
  or the declaration again, gives the same result, at any fuel, without allocating or
  recording anything but a lowered declaration;
* one declaration is counted per recorded clone, no declaration has two, and the clones are
  exactly the declarations appended to the arena, latest first;
* a fresh transformer over the module takes every lowered declaration as it is, without
  allocating. -/
theorem lowering_memoized {opts : LowerOptions} {m : Module} {s : ComposerState}
    (h : Reaches opts m s) :
    (∀ a a' b, s.clones.lookup a = some b → s.clones.lookup a' = some b → a = a') ∧
    (∀ a b, s.clones.lookup a = some b → b ∈ s.lowered) ∧
    (∀ fuel d r s₁, lowerDecl fuel d opts s = .ok (r, s₁) → (r = d ∨ r ∈ s₁.lowered) ∧
      ∀ fuel', (∃ s₂, lowerDecl fuel' r opts s₁ = .ok (r, s₂) ∧ Idle s₁ s₂) ∧
        ∃ s₂, lowerDecl fuel' d opts s₁ = .ok (r, s₂) ∧ Idle s₁ s₂) ∧
    (s.declarations = s.clones.length ∧ (s.clones.map Prod.fst).Nodup ∧
      s.clones.map Prod.snd = (List.range' m.decls.size s.declarations).reverse ∧
      s.module.decls.size = m.decls.size + s.declarations) ∧
    ∀ x ∈ s.lowered, ∀ fuel, ∃ s₂,
      lowerDecl fuel x opts { module := s.module } = .ok (x, s₂) ∧ Idle { module := s.module } s₂ := by
  have hM := memo_of_reaches h
  refine ⟨fun a a' b ha ha' => hM.key_unique (mem_of_lookup_eq_some ha)
      (mem_of_lookup_eq_some ha'), fun a b hab => hM.clone_lowered _ (mem_of_lookup_eq_some hab),
    fun fuel d r s₁ hrun => ?_, ⟨hM.length_clones.symm, hM.keys_nodup, hM.allocated, hM.size_eq⟩,
    fun x hx fuel => ?_⟩
  · -- the result is what the records then answer, and they answer it for itself
    obtain ⟨hM₁, -, hmemo⟩ := (memoWalks fuel).lowerDecl d opts s r s₁ hrun hM trivial
    obtain ⟨hcases, hself⟩ := hM₁.memo_cases hmemo
    exact ⟨hcases, fun fuel' =>
      ⟨lowerDecl_of_memo hM₁ hself fuel' opts, lowerDecl_of_memo hM₁ hmemo fuel' opts⟩⟩
  · -- a lowered declaration has a composer parameter, so it needs no clone
    have hn := Decl.needsClone_eq_false_of_hasComposer (hM.registered.lowered x hx)
    exact lowerDecl_of_memo (memo_start s.module) (by rw [memo, if_neg (by simp [hn])]) fuel opts

/-- Lowering `lambdaModule` clones `F` and `L`: the clones are the two declarations appended,
latest first, and a fresh transformer takes each lowered declaration as it is, even with no
fuel. -/
theorem lambdaModule_clones_recorded :
    ∃ s, Reaches {} lambdaModule s ∧ s.declarations = 2 ∧ s.clones.map Prod.snd = [3, 2] ∧
      ∀ x ∈ s.lowered, ∃ s₂, lowerDecl 0 x {} { module := s.module } = .ok (x, s₂) := by
  have hrun : (match lowerModule {} { module := lambdaModule } with
      | .ok (_, s) => s.declarations == 2
      | .error _ => false) = true := by
    decide +kernel
  cases hr : lowerModule {} { module := lambdaModule } with
  | error e => rw [hr] at hrun; cases hrun
  | ok p =>
    obtain ⟨u, s⟩ := p
    rw [hr] at hrun
    have hdecl : s.declarations = 2 := by simpa using hrun
    have hreach : Reaches {} lambdaModule s := .lowerModule .start hr
    obtain ⟨-, -, -, ⟨-, -, hsnd, -⟩, hfresh⟩ := lowering_memoized hreach
    refine ⟨s, hreach, hdecl, by rw [hsnd, hdecl]; rfl, fun x hx => ?_⟩
    obtain ⟨s₂, h₂, -⟩ := hfresh x hx 0
    exact ⟨s₂, h₂⟩

end Composer

end ComposeLowering
