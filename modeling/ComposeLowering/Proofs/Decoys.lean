import ComposeLowering.Lowering.Pipeline
import ComposeLowering.Proofs.Copy

/-!
# What the decoy passes change

With decoys, lowering first splits remapped members into stubs and implementations and then
retargets calls from stubs to implementations. Neither pass adds a composer parameter or marks
a call: the implementation is a deep copy with renamed parameters, the stub keeps its parameters
(without defaults, unless it is a constructor) and gets a body that returns an unmarked call of
the decoy intrinsic, and retargeting changes only call targets and overrides. So the composer
pass starts from an unlowered module whichever options are chosen.

After the composer pass, recording the implementations' signatures in the stubs changes only
annotations (`Module.Reannotated`), so whatever the composer pass left in parameters, defaults
and bodies is what lowering returns.
-/

namespace ComposeLowering

namespace Decoy

open StepSemantics

/-- The stub body returns an unmarked call. -/
theorem stubBody_unmarked (d : DeclId) (name : String) : (stubBody d name).All Expr.Unmarked := by
  refine Expr.all_unmarked_of_children rfl ?_
  simp only [stubBody, Expr.children, List.mem_singleton, forall_eq]
  refine Expr.all_unmarked_of_children rfl ?_
  simp only [Expr.children, List.mem_singleton, forall_eq]
  refine Expr.all_iff.2 ⟨Expr.unmarked_call_iff.2 rfl, ?_⟩
  simp only [Expr.children, Option.toList, List.nil_append, List.filterMap_cons, id,
    List.filterMap_nil, List.mem_singleton, forall_eq]
  exact Expr.all_unmarked_of_leaf rfl rfl

/-- Splitting one member keeps the module unlowered. -/
theorem unlowered_split {s s' : SplitState} {c : ContainerId} {d : DeclId}
    (hs : s.module.Unlowered) (h : s.split c d = .ok s') : s'.module.Unlowered := by
  unfold SplitState.split at h
  cases hcopy : s.module.deepCopy d with
  | error f => rw [hcopy] at h; cases h
  | ok r =>
    obtain ⟨m, impl⟩ := r
    rw [hcopy] at h
    cases h
    -- the implementation only renames its parameters; the stub loses defaults and body
    refine ((hs.deepCopy hcopy).modifyDecl_of fun x hx => ?_).modifyDecl_of fun x hx => ?_
    · refine hx.of_parts (by simp [implementationDecl]) (fun e he => ?_) hx.body_unmarked
      simp only [implementationDecl, List.filterMap_map] at he
      exact hx.unmarked e (List.mem_append_left _ he)
    · dsimp only
      refine hx.of_parts (by split <;> simp) (fun e he => ?_) fun e he => ?_
      · dsimp only at he
        split at he
        · exact hx.unmarked e (List.mem_append_left _ he)
        · simp at he
      · dsimp only at he
        split at he
        · cases he
          exact stubBody_unmarked _ _
        · exact hx.body_unmarked e he

/-- Splitting every remapped member keeps the module unlowered. -/
theorem unlowered_splitModule {m m' : Module} {n : Nat} (hm : m.Unlowered)
    (h : splitModule m = .ok (m', n)) : m'.Unlowered := by
  unfold splitModule at h
  simp only [bind, Except.bind] at h
  split at h
  · cases h
  · rename_i s hfold
    cases h
    -- every member of every container is split or left as it is
    have hs : s.module.Unlowered := by
      refine foldlM_ok_induction (fun s : SplitState => s.module.Unlowered) ?_ _ _ _ hfold hm
      intro s₁ c s₂ hstep h₁
      refine foldlM_ok_induction (fun s : SplitState => s.module.Unlowered) ?_ _ _ _ hstep h₁
      intro s₃ d s₄ hsplit h₃
      split at hsplit
      · cases hsplit; exact h₃
      · split at hsplit
        · exact unlowered_split h₃ hsplit
        · cases hsplit; exact h₃
    -- appending the implementations and recomputing the parents only reparents
    exact (hs.reparented (Module.Agrees.foldl
      (fun _ (p : ContainerId × DeclId) => Module.reparented_addMember p.1 p.2) _ _)).reparented
        Module.reparented_patchParents

/-! ## Retargeting -/

section Retarget

variable (ctx : LowerContext)

/-- For a given context, retargeting runs as a state monad over `Except`. -/
def retargetSem : StepSemantics RetargetM RetargetState LowerError where
  run x s := x ctx s
  run_pure _ _ := rfl
  run_bind _ _ _ := rfl

/-- A retargeting step keeps the module unlowered. -/
abbrev RetargetKeeps {α : Type} (P : RetargetState → Prop) (x : RetargetM α)
    (Q : α → RetargetState → Prop) : Prop :=
  (retargetSem ctx).Triple (Growth.any _) (fun s => s.module.Unlowered) P x Q

variable {ctx} {P : RetargetState → Prop}

theorem retargetKeeps_get : RetargetKeeps ctx P get fun s _ => s.module.Unlowered := by
  intro s a s' h hI _
  cases h
  exact ⟨hI, trivial, hI⟩

/-- A step that leaves the module as it is keeps it unlowered. -/
theorem retargetKeeps_of_module {α : Type} {x : RetargetM α}
    (h : ∀ s a s', x ctx s = .ok (a, s') → s'.module = s.module) :
    RetargetKeeps ctx P x fun _ _ => True :=
  fun s a s' hx hI _ => ⟨show s'.module.Unlowered by rw [h s a s' hx]; exact hI, trivial, trivial⟩

theorem retargetKeeps_read {ρ : Type} {x : RetargetM ρ}
    (h : ∀ s a s', x ctx s = .ok (a, s') → s' = s) : RetargetKeeps ctx P x fun _ _ => True :=
  retargetKeeps_of_module fun s a s' hx => by rw [h s a s' hx]

theorem liftExcept_state {α : Type} {x : Except LowerError α} {s s' : RetargetState} {a : α}
    (h : implementationOf.liftExcept x ctx s = .ok (a, s')) : s' = s := by
  cases x with
  | error e => cases h
  | ok b => cases h; rfl

/-- Looking up an implementation changes only the cache and the count. -/
theorem retargetKeeps_implementationOf (d : DeclId) :
    RetargetKeeps ctx P (implementationOf d) fun _ _ => True := by
  have hcount : RetargetKeeps ctx (fun _ => True)
      (modify fun s : RetargetState => { s with substituted := s.substituted + 1 })
      fun _ _ => True :=
    retargetKeeps_of_module fun _ _ _ h => by cases h; rfl
  unfold implementationOf
  refine Triple.bind (retargetKeeps_read fun _ _ _ h => by cases h; rfl) fun s => ?_
  refine Triple.ite _ (Triple.pure _ fun _ _ => trivial) ?_
  rcases s.cache.lookup d with _ | i
  · simp only
    refine Triple.bind (retargetKeeps_read fun _ _ _ h => by cases h; rfl) fun _ => ?_
    refine Triple.bind (Q := fun _ _ => True) (retargetKeeps_read fun _ _ _ h => ?_) fun i => ?_
    · exact liftExcept_state h
    refine Triple.bind (retargetKeeps_of_module fun _ _ _ h => by cases h; rfl) fun _ => ?_
    exact Triple.bind (Triple.pure (Q := fun _ _ => True) _ fun _ _ => trivial) fun _ =>
      Triple.bind hcount fun _ => Triple.pure _ fun _ _ => trivial
  · simp only
    exact Triple.bind (Triple.pure (Q := fun _ _ => True) _ fun _ _ => trivial) fun _ =>
      Triple.bind hcount fun _ => Triple.pure _ fun _ _ => trivial

/-- A retargeted expression keeps every call mark: only call targets change. -/
theorem retargetKeeps_retargetExpr (e : Expr) :
    RetargetKeeps ctx (fun _ => e.All Expr.Unmarked) (retargetExpr e)
      fun e' _ => e'.All Expr.Unmarked := by
  refine Triple.of_pure_pre fun he => ?_
  -- the children first, each by this theorem on a smaller expression
  have hchildren : RetargetKeeps ctx (fun _ => True) (e.mapChildrenM retargetExpr pure)
      fun e' _ => e'.callShape? = e.callShape? ∧ ∀ c' ∈ e'.children, c'.All Expr.Unmarked :=
    (Triple.mapChildrenM_fnDecl e (fun _ _ _ _ h => h) (Growth.persists_const _ True)
      (fun c hc => (retargetKeeps_retargetExpr c).mono (fun _ _ => he.child hc) fun _ _ h => h)
      fun _ _ => Triple.pure (Q := fun _ _ => True) _ fun _ _ => trivial).mono
      (fun _ h => h) fun _ _ h => ⟨h.1, h.2.1⟩
  rw [retargetExpr]
  refine Triple.bind hchildren fun e' => Triple.of_pure_pre fun ⟨hshape, hc⟩ => ?_
  have he' : e'.All Expr.Unmarked := Expr.all_unmarked_of_rebuilt hshape hc he
  cases e' with
  | call tgt d x ta args cc ty =>
    cases tgt with
    | decl t =>
      exact Triple.bind (retargetKeeps_implementationOf t) fun _ => Triple.pure _ fun _ _ =>
        Expr.all_iff.2 ⟨Expr.unmarked_call_iff.2 (Expr.unmarked_call_iff.1
          (Expr.all_iff.1 he').1), (Expr.all_iff.1 he').2⟩
    | _ => exact Triple.pure _ fun _ _ => he'
  | _ => exact Triple.pure _ fun _ _ => he'
termination_by sizeOf e
decreasing_by exact Expr.sizeOf_lt_of_mem_children hc

/-- Retargeting one declaration replaces its overrides and the targets of its calls, and keeps
the module unlowered. -/
theorem retargetKeeps_retargetDecl (d : DeclId) :
    RetargetKeeps ctx (fun _ => True) (retargetDecl d) fun _ _ => True := by
  have hmodule : ∀ f : Module → Module, (∀ m : Module, m.Unlowered → (f m).Unlowered) →
      RetargetKeeps ctx (fun _ => True)
        (modify fun s : RetargetState => { s with module := f s.module }) fun _ _ => True := by
    intro f hf s a s' h hI _
    cases h
    exact ⟨hf _ hI, trivial, trivial⟩
  unfold retargetDecl
  refine Triple.bind (retargetKeeps_read fun _ _ _ h => by cases h; rfl) fun _ => ?_
  refine Triple.bind ((Triple.mapM (Q := fun _ _ _ => True) (fun _ _ _ _ _ h => h)
    (Growth.persists_const _ True) _ fun o _ => retargetKeeps_implementationOf o).mono
      (fun _ h => h) fun _ _ _ => trivial) fun overrides => ?_
  refine Triple.bind (hmodule (fun m => m.modifyDecl d fun x => { x with overrides })
    fun m hm => hm.modifyDecl_of fun x hx => ⟨hx.no_composer, hx.unmarked⟩) fun _ => ?_
  refine Triple.bind retargetKeeps_get fun s => Triple.of_pure_pre fun hs => ?_
  -- the defaults and body are taken out, retargeted, and put back
  have hm := hs.takeExprs d
  obtain ⟨hdefaults, hbody⟩ := hs.takeExprs_unmarked d
  generalize s.module.takeExprs d = taken at hm hdefaults hbody ⊢
  obtain ⟨m, exprs⟩ := taken
  dsimp only
  refine Triple.bind (Q := fun _ _ => True) (fun _ _ s' h _ _ => ?_) fun _ => ?_
  · cases h
    exact ⟨hm, trivial, trivial⟩
  refine Triple.bind (Triple.mapM
    (Q := fun (_ o' : Option Expr) (_ : RetargetState) => ∀ e ∈ o', e.All Expr.Unmarked)
    (fun _ _ _ _ _ h => h) (Growth.persists_const _ True) _ fun o ho =>
      (Triple.option o fun e he => (retargetKeeps_retargetExpr e).mono
        (fun _ _ => hdefaults o ho e he) fun _ _ h => h).mono (fun _ h => h) fun _ _ h => h.2)
    fun defaults => Triple.of_pure_pre fun hdefaults' => ?_
  refine Triple.bind ((Triple.option _ fun e he => (retargetKeeps_retargetExpr e).mono
    (fun _ _ => hbody e he) fun _ _ h => h).mono (fun _ h => h) fun _ _ h => h.2)
    fun body => Triple.of_pure_pre fun hbody' => ?_
  exact hmodule _ fun m hm => hm.putExprs (forall_mem_of_forall₂ hdefaults') hbody'

/-- Retargeting every reachable declaration that is not a decoy keeps the module unlowered. -/
theorem unlowered_retargetModule {m m' : Module} {n : Nat} (hm : m.Unlowered)
    (h : retargetModule ctx m = .ok (m', n)) : m'.Unlowered := by
  have hrun : RetargetKeeps ctx (fun _ => True) (m.reachableDecls.forM fun d => do
      if !((← get).module.decl d).isDecoy then retargetDecl d) fun _ _ => True := by
    refine Triple.forM _ fun d _ => ?_
    refine Triple.bind (retargetKeeps_read fun _ _ _ h => by cases h; rfl) fun _ => ?_
    exact Triple.ite _ (retargetKeeps_retargetDecl d) (Triple.pure _ fun _ _ => trivial)
  unfold retargetModule at h
  simp only [bind, Except.bind] at h
  split at h
  · cases h
  · rename_i r hr
    cases h
    exact (hrun { module := m } _ _ hr hm trivial).1

end Retarget

/-! ## Recording signatures -/

/-- Recording the signature of one decoy changes only its annotations. -/
theorem reannotated_recordOne {ctx : LowerContext} {m m' : Module} {d : DeclId}
    (h : recordOne ctx m d = .ok m') : m.Reannotated m' := by
  unfold recordOne at h
  simp only [bind, Except.bind] at h
  split at h
  · cases h
  · split at h
    · -- a missing public signature is an error, whatever the dump of the implementation
      simp only [liftFault] at h
      split at h <;> cases h
    · cases h
      refine Module.Agrees.modifyDecl (fun _ => ?_) d
      rfl

/-- Recording the signatures of all reachable exported decoys changes only annotations. -/
theorem reannotated_recordModule {ctx : LowerContext} {m m' : Module} {n : Nat}
    (h : recordModule ctx m = .ok (m', n)) : m.Reannotated m' := by
  unfold recordModule at h
  refine foldlM_ok_induction (fun r : Module × Nat => m.Reannotated r.1) ?_ _ _ _ h
    (Module.Agrees.refl m)
  rintro ⟨m₁, n₁⟩ d ⟨m₂, n₂⟩ hstep h₁
  dsimp only at hstep h₁ ⊢
  split at hstep
  · simp only [bind, Except.bind] at hstep
    cases hone : recordOne ctx m₁ d with
    | error e => rw [hone] at hstep; cases hstep
    | ok m₃ =>
      simp only [hone, pure, Except.pure, Except.ok.injEq, Prod.mk.injEq] at hstep
      obtain ⟨rfl, rfl⟩ := hstep
      exact h₁.trans (reannotated_recordOne hone)
  · cases hstep
    exact h₁

end Decoy

end ComposeLowering
