import ComposeLowering.Ir.Copy
import ComposeLowering.Proofs.Safe
import ComposeLowering.Proofs.Unlowered

/-!
# Deep copies keep a module unlowered

A deep copy allocates a fresh declaration for the copied one and for everything nested in it,
with parameters of the same origins and defaults and bodies rebuilt node by node; every call it
copies keeps its mark. So copying inside a module in which nothing is lowered leaves nothing
lowered.

Copying a declaration copies its expressions node by node and hands each nested function back
to the declaration copier with one unit of fuel less; `keeps_copyExpr` carries what the
declaration copier keeps through an expression of any size, and `keeps_copyDecl` proves it for
every fuel, at `fuel + 1` from `fuel`.
-/

namespace ComposeLowering

namespace CopyState

/-- The copier runs as a state monad over `Except`. -/
def sem : StepSemantics M CopyState Fault where
  run x s := x s
  run_pure _ _ := rfl
  run_bind _ _ _ := rfl

/-- A copying step keeps the module unlowered; the preconditions and postconditions of the
copier read no state, so any change of state is allowed. -/
abbrev Keeps {α : Type} (P : CopyState → Prop) (x : M α) (Q : α → CopyState → Prop) : Prop :=
  sem.Triple (Growth.any _) (fun s => s.module.Unlowered) P x Q

open StepSemantics

variable {P : CopyState → Prop}

theorem keeps_get : Keeps P get fun s _ => s.module.Unlowered := by
  intro s a s' h hI _
  cases h
  exact ⟨hI, trivial, hI⟩

/-- A step that changes no declaration keeps the module unlowered. -/
theorem keeps_of_decls {α : Type} {x : M α}
    (h : ∀ s a s', x s = .ok (a, s') → s'.module.decls = s.module.decls) :
    Keeps P x fun _ _ => True :=
  fun s a s' hx hI _ => ⟨hI.of_decls_eq (h s a s' hx), trivial, trivial⟩

theorem keeps_read : Keeps P get fun _ _ => True :=
  keeps_of_decls fun _ _ _ h => by cases h; rfl

theorem keeps_remapTy (t : Ty) : Keeps P (remapTy t) fun _ _ => True :=
  keeps_of_decls fun _ _ _ h => by cases h; rfl

theorem keeps_mapValue (v : ValueId) : Keeps P (mapValue v) fun _ _ => True :=
  keeps_of_decls fun _ _ _ h => by cases h; rfl

theorem keeps_newValue (name : String) : Keeps P (newValue name) fun _ _ => True :=
  keeps_of_decls fun _ _ _ h => by cases h; rfl

theorem keeps_modify_values (f : List (ValueId × ValueId) → List (ValueId × ValueId)) :
    Keeps P (modify fun s => { s with values := f s.values }) fun _ _ => True :=
  keeps_of_decls fun _ _ _ h => by cases h; rfl

theorem keeps_liftExcept {α : Type} (x : Except Fault α) :
    Keeps P (liftExcept x) fun _ _ => True := by
  refine keeps_of_decls fun s a s' h => ?_
  cases x with
  | error e => cases h
  | ok b => cases h; rfl

/-- A copied parameter keeps its origin. -/
theorem keeps_copyParam (p : Param) :
    Keeps (fun _ => True) (copyParam p) fun p' _ => p'.origin = p.origin := by
  unfold copyParam
  refine Triple.bind (keeps_newValue _) fun _ => ?_
  refine Triple.bind (keeps_modify_values _) fun _ => ?_
  refine Triple.bind (keeps_remapTy _) fun _ => ?_
  refine Triple.bind (Triple.option p.vararg fun t _ => keeps_remapTy t) fun _ => ?_
  exact Triple.pure _ fun _ _ => rfl

section Expr

variable {nested : DeclId → M DeclId}
  (hnested : ∀ d, Keeps (fun _ => True) (nested d) fun _ _ => True)
include hnested

/-- A copy of an unmarked expression is unmarked: every node is rebuilt with its call mark. -/
theorem keeps_copyExpr (e : Expr) :
    Keeps (fun _ => e.All Expr.Unmarked) (copyExpr nested e)
      fun e' _ => e'.All Expr.Unmarked := by
  refine Triple.of_pure_pre fun he => ?_
  have hchild : ∀ c ∈ e.children, Keeps (fun _ => True) (copyExpr nested c)
      fun c' _ => c'.All Expr.Unmarked :=
    fun c hc => (keeps_copyExpr c).mono (fun _ _ => he.child hc) fun _ _ h => h
  -- the children are copied first; the node keeps its call shape
  have hchildren : Keeps (fun _ => True) (e.mapChildrenM (copyExpr nested) nested)
      fun e' _ => e'.callShape? = e.callShape? ∧ ∀ c' ∈ e'.children, c'.All Expr.Unmarked :=
    (Triple.mapChildrenM_fnDecl e (fun _ _ _ _ h => h) (Growth.persists_const _ True) hchild
      fun d _ => hnested d).mono (fun _ h => h) fun _ _ h => ⟨h.1, h.2.1⟩
  rw [copyExpr.eq_def]
  dsimp only
  refine Triple.bind (keeps_remapTy _) fun t => ?_
  cases e with
  | get v ty | maskBit v _ ty =>
    exact Triple.bind (keeps_mapValue _) fun _ =>
      Triple.pure _ fun _ _ => Expr.all_unmarked_of_leaf rfl rfl
  | set v x ty =>
    refine Triple.bind (keeps_mapValue _) fun _ => ?_
    refine Triple.bind (hchild x (by simp [Expr.children])) fun x' => ?_
    exact Triple.pure _ fun _ hx => Expr.all_unmarked_of_children rfl (by simpa [Expr.children])
  | letVal v x ty =>
    refine Triple.bind (hchild x (by simp [Expr.children])) fun x' => ?_
    refine Triple.of_pure_pre fun hx => ?_
    refine Triple.bind keeps_read fun _ => ?_
    refine Triple.bind (keeps_liftExcept _) fun _ => ?_
    refine Triple.bind (keeps_newValue _) fun _ => ?_
    refine Triple.bind (keeps_modify_values _) fun _ => ?_
    exact Triple.pure _ fun _ _ => Expr.all_unmarked_of_children rfl (by simpa [Expr.children])
  | ret r x ty =>
    refine Triple.bind keeps_read fun _ => ?_
    refine Triple.bind (hchild x (by simp [Expr.children])) fun x' => ?_
    exact Triple.pure _ fun _ hx => Expr.all_unmarked_of_children rfl (by simpa [Expr.children])
  | call tgt d x ta args cc ty =>
    refine Triple.bind hchildren fun e' => Triple.of_pure_pre fun hrebuilt => ?_
    have he' : e'.All Expr.Unmarked := Expr.all_unmarked_of_rebuilt hrebuilt.1 hrebuilt.2 he
    -- a rebuilt call is renamed in its target and type arguments; its mark and children stay
    cases e' with
    | call tgt' d' x' ta' args' cc' ty' =>
      have hnode : ∀ tgt'' ta'', (Expr.call tgt'' d' x' ta'' args' cc' t).All Expr.Unmarked :=
        fun _ _ => Expr.all_iff.2 ⟨Expr.unmarked_call_iff.2 (Expr.unmarked_call_iff.1
          (Expr.all_iff.1 he').1), (Expr.all_iff.1 he').2⟩
      have hta : Keeps (fun _ => True) (ta'.mapM remapTy) fun _ _ => True :=
        Triple.mapM (Q := fun _ _ _ => True) (fun _ _ _ _ _ h => h)
          (Growth.persists_const _ True) ta' (fun ty _ => keeps_remapTy ty) |>.mono
            (fun _ h => h) fun _ _ _ => trivial
      dsimp only
      split
      · refine Triple.bind keeps_read fun _ =>
          Triple.bind (Triple.pure (Q := fun _ _ => True) _ fun _ _ => trivial) fun _ => ?_
        exact Triple.bind hta fun _ => Triple.pure _ fun _ _ => hnode _ _
      · refine Triple.bind (Triple.pure (Q := fun _ _ => True) _ fun _ _ => trivial) fun _ => ?_
        exact Triple.bind hta fun _ => Triple.pure _ fun _ _ => hnode _ _
    | _ =>
      exact Triple.pure _ fun _ _ =>
        Expr.all_unmarked_of_rebuilt (by simp) (by simpa using (Expr.all_iff.1 he').2) he'
  | _ =>
    refine Triple.bind hchildren fun e' => Triple.of_pure_pre fun hrebuilt => ?_
    exact Triple.pure _ fun _ _ =>
      Expr.all_unmarked_of_rebuilt (by simpa using hrebuilt.1) (by simpa using hrebuilt.2) he
termination_by sizeOf e
decreasing_by exact Expr.sizeOf_lt_of_mem_children hc

end Expr

/-- A copy of a declaration has parameters of the same origins and no defaults or body yet, and
the defaults and body put into it are copies of unmarked ones: the module stays unlowered. -/
theorem keeps_copyDecl_succ {fuel : Nat}
    (ih : ∀ old, Keeps (fun _ => True) (copyDecl fuel old) fun _ _ => True) (old : DeclId) :
    Keeps (fun _ => True) (copyDecl (fuel + 1) old) fun _ _ => True := by
  rw [copyDecl]
  refine Triple.bind keeps_get fun s₀ => Triple.of_pure_pre fun h₀ => ?_
  have hd : (s₀.module.decl old).Unlowered := h₀ old
  dsimp only
  refine Triple.bind ((Triple.mapM (Q := fun _ _ _ => True) (fun _ _ _ _ _ h => h)
    (Growth.persists_const _ True) _ fun _ _ => keeps_of_decls fun _ _ _ h => by cases h; rfl).mono
      (fun _ h => h) fun _ _ _ => trivial) fun tps => ?_
  have hcopyParam : ∀ p, Keeps (fun _ => True) (copyParam p) fun _ _ => True :=
    fun p => (keeps_copyParam p).mono (fun _ h => h) fun _ _ _ => trivial
  refine Triple.bind ((Triple.option _ fun p _ => hcopyParam p).mono
    (fun _ h => h) fun _ _ _ => trivial) fun dispatch => ?_
  refine Triple.bind ((Triple.option _ fun p _ => hcopyParam p).mono
    (fun _ h => h) fun _ _ _ => trivial) fun extension => ?_
  refine Triple.bind (Triple.mapM (fun _ _ _ _ _ h => h) (Growth.persists_const _ True) _
    fun p _ => keeps_copyParam p) fun params => Triple.of_pure_pre fun hparams => ?_
  refine Triple.bind (keeps_remapTy _) fun returns => ?_
  refine Triple.bind ((Triple.option _ fun t _ => keeps_remapTy t).mono
    (fun _ h => h) fun _ _ _ => trivial) fun inlineArgument => ?_
  refine Triple.bind keeps_get fun s => Triple.of_pure_pre fun hs => ?_
  -- the copy has the parameters' origins and nothing else to fit
  generalize halloc : s.module.allocDecl _ = alloc
  obtain ⟨m', new⟩ := alloc
  have hcopy : Module.Unlowered m' := by
    rw [show m' = (s.module.allocDecl _).1 from congrArg Prod.fst halloc.symm]
    refine hs.allocDecl (hd.of_parts ?_ ?_ fun _ h => nomatch h)
    · rw [List.map_map]
      exact map_eq_of_forall₂ hparams
    · -- the parameters' defaults are left out of the copy
      intro e he
      simp at he
  dsimp only
  refine Triple.bind (Q := fun _ _ => True) (fun _ _ s' h _ _ => ?_) fun _ => ?_
  · cases h
    exact ⟨hcopy, trivial, trivial⟩
  -- the defaults and body of the original, copied, are put into the copy
  refine Triple.bind (Triple.mapM
    (Q := fun (_ : Param) (o : Option Expr) (_ : CopyState) => ∀ e ∈ o, e.All Expr.Unmarked)
    (fun _ _ _ _ _ h => h) (Growth.persists_const _ True) _ fun p hp =>
      (Triple.option p.default fun e he => (keeps_copyExpr ih e).mono
        (fun _ _ => hd.default_unmarked hp e he) fun _ _ h => h).mono (fun _ h => h)
          fun _ _ h => h.2) fun defaults => Triple.of_pure_pre fun hdefaults => ?_
  refine Triple.bind ((Triple.option _ fun e he => (keeps_copyExpr ih e).mono
    (fun _ _ => hd.body_unmarked e he) fun _ _ h => h).mono (fun _ h => h)
      fun _ _ h => h.2) fun body => Triple.of_pure_pre fun hbody => ?_
  refine Triple.bind (Q := fun _ _ => True) (fun s₁ _ s' h hI _ => ?_) fun _ =>
    Triple.pure _ fun _ _ => trivial
  cases h
  exact ⟨hI.putExprs (forall_mem_of_forall₂ hdefaults) hbody, trivial, trivial⟩

/-- Copying a declaration keeps the module unlowered at every fuel. -/
theorem keeps_copyDecl : ∀ fuel old,
    Keeps (fun _ => True) (copyDecl fuel old) fun _ _ => True
  | 0, _ => by
    rw [copyDecl]
    exact Triple.of_fails fun _ _ _ h => nomatch h
  | fuel + 1, old => keeps_copyDecl_succ (keeps_copyDecl fuel) old

end CopyState

/-- A deep copy inside an unlowered module leaves it unlowered. -/
theorem Module.Unlowered.deepCopy {m m' : Module} {d new : DeclId} (hm : m.Unlowered)
    (h : m.deepCopy d = .ok (m', new)) : m'.Unlowered := by
  unfold Module.deepCopy at h
  cases hrun : CopyState.copyDecl (m.decls.size + 1) d { module := m } with
  | error e => rw [StateT.run, hrun] at h; cases h
  | ok r =>
    obtain ⟨new', s'⟩ := r
    rw [StateT.run, hrun] at h
    cases h
    exact (CopyState.keeps_copyDecl (m.decls.size + 1) d { module := m } new s' hrun hm trivial).1

end ComposeLowering
