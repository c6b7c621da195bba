import ComposeLowering.Proofs.Decoys
import ComposeLowering.Proofs.CopyRanking
import ComposeLowering.Proofs.Composer.Termination

/-!
# Lowering finishes

Every walk of the lowering that follows the nesting carries fuel and stops with the recursion
limit when the fuel is gone: the deep copy of a split, the dump of a signature in an error, and
the walks of the composer pass. A front end promises a nesting without cycles
(`Module.AcyclicNesting`), and for such a module lowering never stops with the recursion limit,
whatever the options (`lowerModule_finishes`). The calls among declarations may form any cycle:
the composer pass registers a clone before it lowers anything the clone reaches, so it clones
each declaration at most once and counts every clone once.

The argument goes pass by pass and carries a ranking of the nesting from each pass to the next.

* Splitting copies each decoyed member into its implementation; the copy ranks as its source
  (`Module.NestRanking.deepCopy`). The stub keeps no more than it held, and appending the
  implementations to their containers only reparents.
* Retargeting replaces call targets and overrides. It takes the defaults and body out of a
  declaration and puts them back with the same `fn` nodes, so the ranking stays as it is, and
  the signature it may dump in an error is one of a ranked module.
* The composer pass keeps a ranking through the sources of its clones (`Composer.run_finishes`).
* Recording signatures changes annotations only.
-/

namespace ComposeLowering

open StepSemantics

variable {ρ : DeclId → Nat}

/-! ## Faults of the decoy rules -/

/-- A fault other than the recursion limit stays one when it becomes an error of lowering. -/
theorem Except.Avoids.liftFault {α : Type} {x : Except Fault α} {Q : α → Prop}
    (hx : Except.Avoids .recursionLimit x Q) :
    Except.Avoids (.fault .recursionLimit) (liftFault x) Q := by
  cases x with
  | ok a => exact Except.Avoids.pure (hx.2 a rfl)
  | error f => exact Except.Avoids.error fun he => hx.1 (by cases he; rfl)

namespace Decoy

variable {m : Module}

/-- Reporting a missing implementation in a ranked module never stops with the recursion limit:
the signature it dumps is of a ranked module. -/
theorem missing_ne_recursionLimit (h : m.NestRanking ρ) (d : DeclId) (target : String) :
    missing m d target ≠ .error (.fault .recursionLimit) := by
  unfold missing
  exact ((Except.Avoids.liftFault (Q := fun _ => True)
    ⟨h.dumpSignature_ne_recursionLimit d, fun _ _ => trivial⟩).bind (R := fun _ => True) fun _ _ =>
      Except.Avoids.error (by rintro ⟨⟩)).1

/-- Finding the implementation of a decoy in a ranked module never stops with the recursion
limit. -/
theorem implementationFor_ne_recursionLimit (ctx : LowerContext) (h : m.NestRanking ρ)
    (d : DeclId) : implementationFor ctx m d ≠ .error (.fault .recursionLimit) := by
  unfold implementationFor
  split
  · exact missing_ne_recursionLimit h d ""
  dsimp only
  split
  · exact Module.except_pure_ne_error _
  split
  · exact missing_ne_recursionLimit h d _
  split
  · -- a malformed signature is reported with the dumped signature
    exact ((Except.Avoids.liftFault (Q := fun _ => True)
      ⟨h.dumpSignature_ne_recursionLimit d, fun _ _ => trivial⟩).bind (R := fun _ => True) fun _ _ =>
        Except.Avoids.error (by rintro ⟨⟩)).1
  split
  · exact Module.except_pure_ne_error _
  · exact missing_ne_recursionLimit h d _

/-! ## Splitting -/

/-- The stub body holds no declaration. -/
theorem stubBody_nestedFns (d : DeclId) (name : String) : (stubBody d name).nestedFns = [] := by
  simp [stubBody, Expr.nestedFns_eq, Expr.fnDecl?, Expr.children]

/-- Splitting a member of a ranked module never stops with the recursion limit, and leaves a
ranked module: the implementation ranks as the member, and the stub holds no more than the
member held. -/
theorem split_ranked {s : SplitState} {c : ContainerId} {d : DeclId}
    (h : s.module.NestRanking ρ) :
    Except.Avoids (.fault .recursionLimit) (s.split c d) fun s' =>
      ∃ ρ', s'.module.NestRanking ρ' := by
  unfold SplitState.split
  refine (Except.Avoids.liftFault ⟨h.deepCopy_ne_recursionLimit d, fun r hr => h.deepCopy hr⟩).bind
    fun r hr => ?_
  obtain ⟨m₁, impl⟩ := r
  obtain ⟨ρ₁, h₁⟩ := hr
  refine Except.Avoids.pure ⟨ρ₁, (h₁.modifyDecl fun y hy => ?_).modifyDecl fun y hy => ?_⟩
  · -- the implementation only renames its parameters
    simpa [implementationDecl, Decl.nestedFns, List.filterMap_map, Function.comp_def] using hy
  · -- the stub loses its defaults, unless it is a constructor, and its body
    dsimp only at hy
    simp only [Decl.nestedFns, List.mem_append, List.mem_flatMap] at hy ⊢
    rcases hy with ⟨e, he, hy⟩ | hy
    · split at he
      · exact .inl ⟨e, he, hy⟩
      · simp at he
    · split at hy
      · simp [stubBody_nestedFns] at hy
      · exact .inr hy

/-- Splitting every decoyed member of a ranked module never stops with the recursion limit, and
leaves a ranked module. -/
theorem splitModule_ranked (h : m.NestRanking ρ) :
    Except.Avoids (.fault .recursionLimit) (splitModule m) fun r => ∃ ρ', r.1.NestRanking ρ' := by
  unfold splitModule
  refine Except.Avoids.bind (Q := fun s : SplitState => ∃ ρ', s.module.NestRanking ρ')
    ?_ fun s hs => ?_
  · -- every member of every container is split or left as it is
    refine Except.Avoids.foldlM (fun s₁ c h₁ => Except.Avoids.foldlM (fun s₂ d h₂ => ?_) _ _ h₁)
      _ _ ⟨ρ, h⟩
    obtain ⟨ρ₂, h₂⟩ := h₂
    dsimp only
    split
    · exact Except.Avoids.pure ⟨ρ₂, h₂⟩
    split
    · exact split_ranked h₂
    · exact Except.Avoids.pure ⟨ρ₂, h₂⟩
  · -- appending the implementations and recomputing the parents only reparents
    obtain ⟨ρ₁, h₁⟩ := hs
    refine Except.Avoids.pure ⟨ρ₁, ?_⟩
    refine (h₁.of_agrees (Module.Agrees.foldl (fun _ (p : ContainerId × DeclId) =>
      Module.reparented_addMember p.1 p.2) _ _) fun _ => rfl).of_agrees
        Module.reparented_patchParents fun _ => rfl

/-! ## Retargeting -/

section Retarget

variable {ctx : LowerContext} {n : Nat}

/-- What retargeting inside a module of `n` declarations whose nesting `ρ` ranks keeps: no
declaration is added, and `ρ` still ranks the nesting. -/
def RetargetRanked (n : Nat) (ρ : DeclId → Nat) (s : RetargetState) : Prop :=
  s.module.decls.size = n ∧ s.module.NestRanking ρ

/-- A retargeting step that never stops with the recursion limit. -/
abbrev RetargetFinishes {α : Type} (ctx : LowerContext) (n : Nat) (ρ : DeclId → Nat)
    (P : RetargetState → Prop) (x : RetargetM α) (Q : α → RetargetState → Prop) : Prop :=
  (retargetSem ctx).Safe (· = .fault .recursionLimit) (Growth.any _) (RetargetRanked n ρ) P x Q

variable {P : RetargetState → Prop}

/-- A step that keeps the module, and fails with no recursion limit, finishes. -/
theorem retargetFinishes_of_module {α : Type} {x : RetargetM α}
    (h : ∀ s a s', x ctx s = .ok (a, s') → s'.module = s.module)
    (hne : ∀ s, x ctx s ≠ .error (.fault .recursionLimit)) :
    RetargetFinishes ctx n ρ P x fun _ _ => True := by
  refine Safe.of_triple (fun s a s' hx hI _ => ?_) fun s e hx _ _ he => hne s (he ▸ hx)
  refine ⟨?_, trivial, trivial⟩
  rw [RetargetRanked, h s a s' hx]
  exact hI

/-- Reading the state gives the state the step starts from, which the argument holds of. -/
theorem retargetFinishes_get :
    RetargetFinishes ctx n ρ P get fun t s => RetargetRanked n ρ t ∧ t = s ∧ P s :=
  Safe.of_run fun s hI hs => ⟨s, s, rfl, hI, trivial, hI, rfl, hs⟩

theorem retargetFinishes_read : RetargetFinishes ctx n ρ P read fun c s => c = ctx ∧ P s :=
  Safe.of_run fun s hI hs => ⟨ctx, s, rfl, hI, trivial, rfl, hs⟩

/-- An edit of the module that keeps its size and the ranking finishes. -/
theorem retargetFinishes_edit (f : Module → Module)
    (hf : ∀ m : Module, m.decls.size = n → m.NestRanking ρ →
      (f m).decls.size = n ∧ (f m).NestRanking ρ) :
    RetargetFinishes ctx n ρ P (modify fun s : RetargetState => { s with module := f s.module })
      fun _ _ => True :=
  Safe.of_run fun s hI _ => ⟨(), _, rfl, hf s.module hI.1 hI.2, trivial, trivial⟩

/-- A step that faults with no recursion limit finishes. -/
theorem retargetFinishes_liftExcept {α : Type} {x : Except LowerError α}
    (hx : x ≠ .error (.fault .recursionLimit)) :
    RetargetFinishes ctx n ρ P (implementationOf.liftExcept x) fun _ s => P s := by
  cases x with
  | ok a => exact Safe.pure a fun _ h => h
  | error e =>
    refine Safe.of_triple (Triple.of_fails fun _ _ _ h => by cases h) fun _ e' h _ _ he' => ?_
    cases h
    exact hx (he' ▸ rfl)

/-- Looking up the implementation of a decoy finishes: the signature it may dump is of the
ranked module. -/
theorem retargetFinishes_implementationOf (d : DeclId) :
    RetargetFinishes ctx n ρ (fun _ => True) (implementationOf d) fun _ _ => True := by
  have hcount : RetargetFinishes ctx n ρ (fun _ => True)
      (modify fun s : RetargetState => { s with substituted := s.substituted + 1 })
      fun _ _ => True :=
    retargetFinishes_of_module (fun _ _ _ h => by cases h; rfl) fun _ h => by cases h
  unfold implementationOf
  refine Safe.bind retargetFinishes_get fun s₀ => Safe.of_pure_and fun hs₀ => ?_
  refine Safe.mono (P := fun _ => True) ?_ (fun _ _ => trivial) fun _ _ h => h
  refine Safe.ite _ (Safe.pure _ fun _ _ => trivial) ?_
  rcases s₀.cache.lookup d with _ | i
  · simp only
    refine Safe.bind retargetFinishes_read fun c => Safe.of_pure_and fun hc => ?_
    subst hc
    refine Safe.bind (retargetFinishes_liftExcept
      (implementationFor_ne_recursionLimit c hs₀.2 d)) fun i => ?_
    refine Safe.bind (retargetFinishes_of_module (fun _ _ _ h => by cases h; rfl)
      fun _ h => by cases h) fun _ => ?_
    exact Safe.bind (Safe.pure (Q := fun _ _ => True) _ fun _ _ => trivial) fun _ =>
      Safe.bind hcount fun _ => Safe.pure _ fun _ _ => trivial
  · simp only
    exact Safe.bind (Safe.pure (Q := fun _ _ => True) _ fun _ _ => trivial) fun _ =>
      Safe.bind hcount fun _ => Safe.pure _ fun _ _ => trivial

/-- Retargeting an expression finishes, and the retargeted expression holds no declaration the
expression did not hold: only call targets change. -/
theorem retargetFinishes_retargetExpr (e : Expr) :
    RetargetFinishes ctx n ρ (fun _ => True) (retargetExpr e)
      fun e' _ => ∀ y ∈ e'.nestedFns, y ∈ e.nestedFns := by
  -- the children first, each by this theorem on a smaller expression; `fn` nodes stay
  have hchildren := Safe.mapChildrenM (G := Growth.any _)
    (R := fun c' _ => ∀ y ∈ c'.nestedFns, y ∈ e.nestedFns)
    (f := retargetExpr) (g := pure) e (fun _ _ _ _ h => h) (Growth.persists_const _ True)
    (fun c hc => (retargetFinishes_retargetExpr c).mono (fun _ h => h)
      fun _ _ h y hy => Expr.nestedFns_subset_of_mem_children hc (h y hy))
    fun d hd => (Safe.pure d fun _ _ => Expr.mem_nestedFns.2 (.inl hd) :
      RetargetFinishes ctx n ρ (fun _ => True) (pure d) fun d' _ => d' ∈ e.nestedFns)
  rw [retargetExpr]
  refine Safe.bind hchildren fun e' => Safe.of_pure_pre fun h => ?_
  have he' : ∀ y ∈ e'.nestedFns, y ∈ e.nestedFns := Expr.forall_nestedFns h.2.2 h.2.1
  cases e' with
  | call tgt d x ta args cc ty =>
    cases tgt with
    | decl t =>
      exact Safe.bind (retargetFinishes_implementationOf t) fun _ => Safe.pure _ fun _ _ =>
        Expr.forall_nestedFns (by simp [Expr.fnDecl?]) fun c hc y hy =>
          he' y (Expr.mem_nestedFns.2 (.inr ⟨c, hc, hy⟩))
    | _ => exact Safe.pure _ fun _ _ => he'
  | _ => exact Safe.pure _ fun _ _ => he'
termination_by sizeOf e
decreasing_by exact Expr.sizeOf_lt_of_mem_children hc

/-- Retargeting one declaration finishes and keeps the ranking: its defaults and body are taken
out and put back holding no declaration they did not hold. -/
theorem retargetFinishes_retargetDecl (d : DeclId) :
    RetargetFinishes ctx n ρ (fun _ => True) (retargetDecl d) fun _ _ => True := by
  unfold retargetDecl
  refine Safe.bind retargetFinishes_get fun _ => Safe.of_pure_and fun _ => ?_
  refine Safe.mono (P := fun _ => True) ?_ (fun _ _ => trivial) fun _ _ h => h
  refine Safe.bind ((Safe.mapM (Q := fun _ _ _ => True) (fun _ _ _ _ _ h => h)
    (Growth.persists_const _ True) _ fun o _ => retargetFinishes_implementationOf o).mono
      (fun _ h => h) fun _ _ _ => trivial) fun overrides => ?_
  -- the overrides change, and what the declaration owns does not
  refine Safe.bind (retargetFinishes_edit _ fun m hm hr =>
    ⟨(Module.decls_size_modifyDecl _ _ _).trans hm, hr.modifyDecl fun y hy => hy⟩) fun _ => ?_
  refine Safe.bind retargetFinishes_get fun s₁ => Safe.of_pure_and fun hs₁ => ?_
  -- what is taken out holds declarations of the arena that rank below the declaration
  have hown : ∀ e ∈ (s₁.module.decl d).owned, ∀ y ∈ e.nestedFns, y < n ∧ ρ y < ρ d :=
    fun e he y hy => ⟨hs₁.1 ▸ hs₁.2.nested_lt d y (Module.nests_iff.2 ⟨e, he, hy⟩),
      hs₁.2.rank_lt d y (Module.nests_iff.2 ⟨e, he, hy⟩)⟩
  have htaken : RetargetRanked n ρ { s₁ with module := (s₁.module.takeExprs d).1 } :=
    ⟨by rw [Module.takeExprs_fst, Module.decls_size_setDecl]; exact hs₁.1, hs₁.2.takeExprs d⟩
  have hexprs := Module.takeExprs_snd s₁.module d
  generalize s₁.module.takeExprs d = taken at htaken hexprs ⊢
  obtain ⟨m, exprs⟩ := taken
  dsimp only at htaken hexprs ⊢
  subst hexprs
  refine Safe.bind (Q := fun _ _ => True) (Safe.of_run fun s _ hs => ?_) fun _ => ?_
  · obtain ⟨rfl, -⟩ := hs
    exact ⟨(), _, rfl, htaken, trivial, trivial⟩
  -- each default and the body, retargeted, hold what they held
  refine Safe.bind (Safe.mapM (Q := fun (_ o' : Option Expr) (_ : RetargetState) =>
      ∀ e' ∈ o', ∀ y ∈ e'.nestedFns, y < n ∧ ρ y < ρ d)
    (fun _ _ _ _ _ h => h) (Growth.persists_const _ True) _ fun o ho => ?_)
    fun defaults => Safe.of_pure_pre fun hdefaults => ?_
  · obtain ⟨p, hp, rfl⟩ := List.mem_map.1 ho
    refine (Safe.option (R := fun e' _ => ∀ y ∈ e'.nestedFns, y < n ∧ ρ y < ρ d) p.default
      fun e he => (retargetFinishes_retargetExpr e).mono (fun _ h => h) fun _ _ h y hy =>
        hown e (List.mem_append_left _ (List.mem_filterMap.2 ⟨p, hp, he⟩)) y (h y hy)).mono
          (fun _ h => h) fun _ _ h => h.2
  refine Safe.bind ((Safe.option (R := fun e' _ => ∀ y ∈ e'.nestedFns, y < n ∧ ρ y < ρ d) _
    fun e he => (retargetFinishes_retargetExpr e).mono (fun _ h => h) fun _ _ h y hy =>
      hown e (List.mem_append_right _ (Option.mem_toList.2 he)) y (h y hy)).mono
        (fun _ h => h) fun _ _ h => h.2) fun body => Safe.of_pure_pre fun hbody => ?_
  refine retargetFinishes_edit _ fun m hm hr => ⟨(Module.decls_size_modifyDecl _ _ _).trans hm,
    hr.putExprs fun y hy => ?_⟩
  rw [hm]
  rcases hy with ⟨o, ho, e, he, hy⟩ | ⟨e, he, hy⟩
  · exact forall_mem_of_forall₂ hdefaults o ho e he y hy
  · exact hbody e he y hy

/-- Retargeting a ranked module never stops with the recursion limit, and keeps the ranking. -/
theorem retargetModule_ranked (ctx : LowerContext) (h : m.NestRanking ρ) :
    Except.Avoids (.fault .recursionLimit) (retargetModule ctx m) fun r => r.1.NestRanking ρ := by
  unfold retargetModule
  refine Except.Avoids.bind (Safe.avoids (S := retargetSem ctx) (G := Growth.any _)
    (I := RetargetRanked m.decls.size ρ) (P := fun _ => True) (Q := fun _ _ => True) ?_ ⟨rfl, h⟩
      trivial) fun p hp => ?_
  · -- every reachable declaration that is not a decoy is retargeted
    refine Safe.forM _ fun d _ => ?_
    refine Safe.bind retargetFinishes_get fun _ => Safe.of_pure_and fun _ => ?_
    refine Safe.mono (P := fun _ => True) ?_ (fun _ _ => trivial) fun _ _ h => h
    exact Safe.ite _ (retargetFinishes_retargetDecl d) (Safe.pure _ fun _ _ => trivial)
  · obtain ⟨⟨⟩, s⟩ := p
    exact Except.Avoids.pure hp.1.2

end Retarget

/-! ## Recording signatures -/

/-- Recording the signature of a decoy of a ranked module never stops with the recursion limit,
and keeps the ranking: only the decoy's annotations change. -/
theorem recordOne_ranked (ctx : LowerContext) (h : m.NestRanking ρ) (d : DeclId) :
    Except.Avoids (.fault .recursionLimit) (recordOne ctx m d) fun m' => m'.NestRanking ρ := by
  unfold recordOne
  refine Except.Avoids.bind (Q := fun _ => True)
    ⟨implementationFor_ne_recursionLimit ctx h d, fun _ _ => trivial⟩ fun impl _ => ?_
  split
  · -- a missing public signature is reported with the dumped signature
    exact (Except.Avoids.liftFault (Q := fun _ => True)
      ⟨h.dumpSignature_ne_recursionLimit impl, fun _ _ => trivial⟩).bind fun _ _ =>
        Except.Avoids.error (by rintro ⟨⟩)
  · exact Except.Avoids.pure (h.modifyDecl fun y hy => hy)

/-- Recording the signatures of a ranked module never stops with the recursion limit, and keeps
the ranking. -/
theorem recordModule_ranked (ctx : LowerContext) (h : m.NestRanking ρ) :
    Except.Avoids (.fault .recursionLimit) (recordModule ctx m) fun r => r.1.NestRanking ρ := by
  unfold recordModule
  refine Except.Avoids.foldlM (fun r d hr => ?_) _ _ h
  obtain ⟨m₁, k⟩ := r
  dsimp only at hr ⊢
  split
  · exact (recordOne_ranked ctx hr d).bind fun _ h₂ => Except.Avoids.pure h₂
  · exact Except.Avoids.pure hr

end Decoy

/-! ## The pipeline -/

/-- The composer pass on a ranked module never stops with the recursion limit and ends where the
argument of `ComposeLowering.Proofs.Composer.Termination` holds. -/
theorem Composer.run_avoids (opts : LowerOptions) {m : Module} (h : m.NestRanking ρ) :
    Except.Avoids (.fault .recursionLimit) (Composer.run opts m) fun s =>
      Composer.run opts m = .ok s ∧ Composer.Bounded m.decls.size ρ s :=
  ⟨(Composer.run_finishes h).1, fun s hs => ⟨hs, (Composer.run_finishes h).2 s hs⟩⟩

/-- Lowering a ranked module never stops with the recursion limit, and what it returns is, up to
annotations, the module of a composer run on a module without cycles in its nesting, which
cloned each declaration at most once and reported every clone once. -/
theorem lowerModule_avoids (ctx : LowerContext) {m : Module} (h : m.NestRanking ρ) :
    Except.Avoids (.fault .recursionLimit) (lowerModule ctx m) fun r => ∃ m₀ s,
      m₀.AcyclicNesting ∧ Composer.run ctx.options m₀ = .ok s ∧ s.module.Reannotated r.1 ∧
        (s.clones.map Prod.fst).Nodup ∧ r.2.declarationsLowered = s.clones.length := by
  unfold lowerModule
  cases ctx.options.decoysEnabled <;> simp only [Bool.false_eq_true, ↓reduceIte, pure_bind]
  · -- without decoys only the composer pass runs
    refine (Composer.run_avoids ctx.options h).bind fun s hs => Except.Avoids.pure ?_
    exact ⟨m, s, h.acyclicNesting, hs.1, Module.Agrees.refl _, hs.2.keys_nodup,
      hs.2.declarations_eq⟩
  · -- with decoys the composer pass runs between retargeting and recording
    refine (Decoy.splitModule_ranked h).bind fun r₁ h₁ => ?_
    obtain ⟨m₁, k₁⟩ := r₁
    obtain ⟨ρ₁, h₁⟩ := h₁
    refine (Decoy.retargetModule_ranked ctx h₁).bind fun r₂ h₂ => ?_
    obtain ⟨m₂, k₂⟩ := r₂
    refine (Composer.run_avoids ctx.options h₂).bind fun s hs => ?_
    refine Except.Avoids.bind (Q := fun r : Module × Nat => s.module.Reannotated r.1)
      ⟨(Decoy.recordModule_ranked ctx hs.2.nestRanking).1, fun r hr => ?_⟩ fun r₃ h₃ => ?_
    · obtain ⟨m', k⟩ := r
      exact Decoy.reannotated_recordModule hr
    obtain ⟨m₃, k₃⟩ := r₃
    exact Except.Avoids.pure ⟨m₂, s, h₂.acyclicNesting, hs.1, h₃, hs.2.keys_nodup,
      hs.2.declarations_eq⟩

/-- Lowering a module whose containment is a forest and whose overrides have no cycle never stops
with the recursion limit, under any options and whatever calls its declarations make to one
another. What it returns is, up to annotations, the module of a composer run on a module whose
nesting has no cycle, and that run cloned each declaration at most once and reported as lowered
exactly the clones it made.

Only the nesting carries the proof. The other two assumptions mark out the modules on which the
program's own searches return: on a cyclic override chain its search for a default, and on a
class graph that reaches a container twice its listing of containers, recurse without end,
where the bounded searches here stop. -/
theorem lowerModule_finishes (ctx : LowerContext) {m : Module} (h : m.AcyclicNesting)
    (_containers : m.containersInOrder.Nodup) (_overrides : ∀ d, ¬ Relation.TransGen m.Overrides d d) :
    lowerModule ctx m ≠ .error (.fault .recursionLimit) ∧
      ∀ m' stats, lowerModule ctx m = .ok (m', stats) → ∃ m₀ s,
        m₀.AcyclicNesting ∧ Composer.run ctx.options m₀ = .ok s ∧ s.module.Reannotated m' ∧
          (s.clones.map Prod.fst).Nodup ∧ stats.declarationsLowered = s.clones.length := by
  obtain ⟨ρ, hρ⟩ := h.exists_nestRanking
  have hl := lowerModule_avoids ctx hρ
  exact ⟨hl.1, fun m' stats hok => hl.2 (m', stats) hok⟩

/-- `F` and `G` are composable and call each other, `F` also calls itself, and `F` holds a
lambda `L` that calls `F` back. -/
def callbackModule : Module :=
  { name := "app",
    decls := #[
      { name := "F", kind := .function, parent := .container 0, annotations := [.composable],
        body := some (.block [.call (.decl 1) none none [] [] false Ty.unit,
          .call (.decl 0) none none [] [] false Ty.unit, .fn 2 Ty.any] Ty.unit) },
      { name := "G", kind := .function, parent := .container 0, annotations := [.composable],
        body := some (.call (.decl 0) none none [] [] false Ty.unit) },
      { name := "L", kind := .function, origin := .lambda, visibility := .local, parent := .decl 0,
        body := some (.call (.decl 0) none none [] [] false Ty.unit) }],
    containers := #[{ kind := .file "p", members := [0, 1] }],
    files := [0] }

theorem callbackModule_finishes :
    callbackModule.AcyclicNesting ∧ callbackModule.containersInOrder.Nodup ∧
      (∀ d, ¬ Relation.TransGen callbackModule.Overrides d d) ∧
      (lowerModule { options := { decoys := true } } callbackModule ≠
          .error (.fault .recursionLimit) ∧
        ∀ m' stats, lowerModule { options := { decoys := true } } callbackModule = .ok (m', stats) →
          ∃ m₀ s, m₀.AcyclicNesting ∧ Composer.run { decoys := true } m₀ = .ok s ∧
            s.module.Reannotated m' ∧ (s.clones.map Prod.fst).Nodup ∧
              stats.declarationsLowered = s.clones.length) :=
  have h : callbackModule.AcyclicNesting := Module.acyclicNesting_of_check (by decide +kernel)
  have hcontainers : callbackModule.containersInOrder.Nodup := by decide +kernel
  -- nothing overrides anything
  have hover : ∀ d, ¬ Relation.TransGen callbackModule.Overrides d d :=
    Module.not_transGen_of_ranked (fun d hd => by rw [Module.decl_of_size_le hd]; rfl)
      (by decide +kernel)
  ⟨h, hcontainers, hover, lowerModule_finishes _ h hcontainers hover⟩

end ComposeLowering
