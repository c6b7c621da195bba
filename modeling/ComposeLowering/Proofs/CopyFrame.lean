import ComposeLowering.Proofs.Copy
import ComposeLowering.Proofs.Safe

/-!
# What a deep copy leaves in place

A deep copy appends declarations to the arena and writes defaults and bodies only into the
declarations it appended; values and type parameters are appended too. It never touches the
containers, the files, or a declaration that was in the arena when it started. `Retains B m s`
states this of a copy started in `m`; every step of the copier keeps it, while the arena only
grows (`growing`), so the copy a walk makes lies past the start's arena and stays in the arena.
A declaration the copy appends carries the annotations of the one it copies, so a property `B`
of annotations that the copied declarations have, the appended ones have too.
What the copy appends holds only what it appended: the `fn` nodes of a copied expression hold
the copies of the declarations they held. The proofs follow those of `CopyState.keeps_copyExpr`
and `CopyState.keeps_copyDecl`: the children of an expression first, then a declaration at
`fuel + 1` from the copier at `fuel`.

The copy of a declaration is its original with its own references renewed (`Decl.CopyOf`): the
declarations it holds, its values and its type parameters are fresh, and everything else, from
its name to its overrides and annotations, is the original's.
-/

namespace ComposeLowering

namespace CopyState

open StepSemantics

/-- What a copy started in `m` keeps: the containers, the files, every declaration of `m`'s
arena, which only grows, and the type parameters of `m`, to which it only appends; and every
declaration it appends carries annotations that `B` admits, when the declarations it copies
do. -/
structure Retains (B : List Annotation → Prop) (m : Module) (s : CopyState) : Prop where
  containers_eq : s.module.containers = m.containers
  files_eq : s.module.files = m.files
  size_ge : m.decls.size ≤ s.module.decls.size
  decl_eq : ∀ d < m.decls.size, s.module.decl d = m.decl d
  /-- A declaration the copy appended holds only declarations it appended. -/
  nests_fresh : ∀ z, m.decls.size ≤ z → ∀ y ∈ s.module.nestedDecls z, m.decls.size ≤ y
  /-- A declaration past `m`'s arena carries annotations that `B` admits. -/
  marks : ∀ y, m.decls.size ≤ y → B (s.module.decl y).annotations
  typeParams_extended : m.typeParams.toList <+: s.module.typeParams.toList

/-- The arena of a copy only grows. -/
def growing : Growth CopyState :=
  ⟨fun s s' => s.module.decls.size ≤ s'.module.decls.size, fun _ => Nat.le_refl _,
    fun h₁ h₂ => Nat.le_trans h₁ h₂⟩

/-- A copying step that keeps what a copy started in `m` keeps, and lets the arena only grow. -/
abbrev Appends {α : Type} (B : List Annotation → Prop) (m : Module) (P : CopyState → Prop)
    (x : M α) (Q : α → CopyState → Prop) : Prop :=
  sem.Triple growing (Retains B m) P x Q

variable {B : List Annotation → Prop} {m : Module} {P : CopyState → Prop}

/-- A step that changes no declaration, container or file, and only appends type parameters,
appends no declaration. -/
theorem appends_of_decls {α : Type} {x : M α}
    (h : ∀ s a s', x s = .ok (a, s') → s'.module.decls = s.module.decls ∧
      s'.module.containers = s.module.containers ∧ s'.module.files = s.module.files ∧
      s.module.typeParams.toList <+: s'.module.typeParams.toList) :
    Appends B m P x fun _ _ => True := by
  intro s a s' hx hR _
  obtain ⟨hd, hc, hf, htp⟩ := h s a s' hx
  refine ⟨⟨hc.trans hR.containers_eq, hf.trans hR.files_eq, hd ▸ hR.size_ge, fun d hd' => ?_,
    fun z hz => ?_, fun y hy => ?_, hR.typeParams_extended.trans htp⟩,
    Nat.le_of_eq (congrArg Array.size hd.symm), trivial⟩
  · rw [Module.decl_congr _ hd]
    exact hR.decl_eq d hd'
  · rw [Module.nestedDecls, Module.decl_congr _ hd]
    exact hR.nests_fresh z hz
  · rw [Module.decl_congr _ hd]
    exact hR.marks y hy

theorem appends_read : Appends B m P get fun _ _ => True :=
  appends_of_decls fun _ _ _ h => by cases h; exact ⟨rfl, rfl, rfl, List.prefix_refl _⟩

theorem appends_remapTy (t : Ty) : Appends B m P (remapTy t) fun _ _ => True :=
  appends_of_decls fun _ _ _ h => by cases h; exact ⟨rfl, rfl, rfl, List.prefix_refl _⟩

theorem appends_mapValue (v : ValueId) : Appends B m P (mapValue v) fun _ _ => True :=
  appends_of_decls fun _ _ _ h => by cases h; exact ⟨rfl, rfl, rfl, List.prefix_refl _⟩

theorem appends_newValue (name : String) : Appends B m P (newValue name) fun _ _ => True :=
  appends_of_decls fun _ _ _ h => by cases h; exact ⟨rfl, rfl, rfl, List.prefix_refl _⟩

theorem appends_modify_values (f : List (ValueId × ValueId) → List (ValueId × ValueId)) :
    Appends B m P (modify fun s => { s with values := f s.values }) fun _ _ => True :=
  appends_of_decls fun _ _ _ h => by cases h; exact ⟨rfl, rfl, rfl, List.prefix_refl _⟩

theorem appends_liftExcept {α : Type} (x : Except Fault α) :
    Appends B m P (liftExcept x) fun _ _ => True := by
  refine appends_of_decls fun s a s' h => ?_
  cases x with
  | error e => cases h
  | ok b => cases h; exact ⟨rfl, rfl, rfl, List.prefix_refl _⟩

/-- A copied parameter is the parameter with a fresh value and its types renamed. -/
theorem appends_copyParam (p : Param) : Appends B m P (copyParam p)
    fun q _ => ∃ v ty vararg, q = { p with value := v, ty, vararg } := by
  unfold copyParam
  refine Triple.bind (appends_newValue _) fun _ => ?_
  refine Triple.bind (appends_modify_values _) fun _ => ?_
  refine Triple.bind (appends_remapTy _) fun _ => ?_
  refine Triple.bind (Triple.option p.vararg fun t _ => appends_remapTy t) fun _ => ?_
  exact Triple.pure _ fun _ _ => ⟨_, _, _, rfl⟩

/-- The copied parameters are the parameters with fresh values and renamed types. -/
theorem appends_copyParams (ps : List Param) :
    Appends B m (fun _ => True) (ps.mapM copyParam) fun qs _ => List.Forall₂
      (fun p q => ∃ v ty vararg, q = { p with value := v, ty, vararg }) ps qs :=
  Triple.mapM (fun _ _ _ _ _ h => h) (Growth.persists_const _ True) ps
    fun p _ => appends_copyParam p

theorem appends_get : Appends B m P get fun t s => t = s := by
  intro s a s' h hR _
  cases h
  exact ⟨hR, Nat.le_refl _, rfl⟩

/-- Reading the state hands on what the copy keeps in it. -/
theorem appends_get_retains : Appends B m P get fun t _ => Retains B m t := by
  intro s a s' h hR _
  cases h
  exact ⟨hR, Nat.le_refl _, hR⟩

/-- Every declaration that `e` holds lies past `m`'s arena. -/
def Fresh (m : Module) (e : Expr) : Prop := ∀ y ∈ e.nestedFns, m.decls.size ≤ y

theorem Fresh.of_parts {e : Expr} (hown : ∀ y ∈ e.fnDecl?, m.decls.size ≤ y)
    (hchildren : ∀ c ∈ e.children, Fresh m c) : Fresh m e :=
  Expr.forall_nestedFns hown hchildren

theorem Fresh.of_leaf {e : Expr} (hf : e.fnDecl? = none) (hc : e.children = []) : Fresh m e := by
  intro y hy
  rw [Expr.nestedFns_of_leaf hf hc] at hy
  cases hy

/-- Putting fresh defaults and a fresh body into a declaration appended by the copy keeps what
the copy keeps. -/
theorem Retains.putExprs {s s' : CopyState} (hR : Retains B m s) {new : DeclId}
    (hnew : m.decls.size ≤ new) {xs : DeclExprs} (hdefaults : ∀ o ∈ xs.defaults, ∀ e ∈ o, Fresh m e)
    (hbody : ∀ e ∈ xs.body, Fresh m e) (h : s'.module = s.module.putExprs new xs) :
    Retains B m s' where
  containers_eq := h ▸ hR.containers_eq
  files_eq := h ▸ hR.files_eq
  size_ge := by
    rw [h, Module.putExprs, Module.decls_size_modifyDecl]
    exact hR.size_ge
  decl_eq d hd := by
    rw [h, Module.putExprs, Module.decl_modifyDecl, if_neg ?_, hR.decl_eq d hd]
    rintro ⟨rfl, -⟩
    exact absurd hd (Nat.not_lt.2 hnew)
  nests_fresh z hz y hy := by
    rw [h] at hy
    rcases Module.nests_putExprs hy with ⟨-, ⟨o, ho, e, he, hy⟩ | ⟨e, he, hy⟩⟩ | hy
    · exact hdefaults o ho e he y hy
    · exact hbody e he y hy
    · exact hR.nests_fresh z hz y hy
  marks y hy := by
    rw [h, Module.putExprs, Module.decl_modifyDecl]
    split
    · exact hR.marks y hy
    · exact hR.marks y hy
  typeParams_extended := h ▸ hR.typeParams_extended

/-- Appending a declaration that holds nothing keeps what the copy keeps. -/
theorem Retains.allocDecl {s s' : CopyState} (hR : Retains B m s) {x : Decl} (hx : x.nestedFns = [])
    (hB : B x.annotations) (h : s'.module = (s.module.allocDecl x).1) : Retains B m s' where
  containers_eq := h ▸ hR.containers_eq
  files_eq := h ▸ hR.files_eq
  size_ge := by
    rw [h, Module.decls_size_allocDecl]
    exact Nat.le_succ_of_le hR.size_ge
  decl_eq d hd := by
    rw [h, Module.decl_allocDecl, if_neg (Nat.ne_of_lt (Nat.lt_of_lt_of_le hd hR.size_ge)),
      hR.decl_eq d hd]
  nests_fresh z hz y hy := by
    rw [h] at hy
    rcases Module.nests_allocDecl hy with ⟨-, hy⟩ | hy
    · rw [hx] at hy
      cases hy
    · exact hR.nests_fresh z hz y hy
  marks y hy := by
    rw [h, Module.decl_allocDecl]
    split
    · exact hB
    · exact hR.marks y hy
  typeParams_extended := h ▸ hR.typeParams_extended

section Expr

variable {nested : DeclId → M DeclId}
  (hnested : ∀ d, B (m.decl d).annotations →
    Appends B m (fun _ => True) (nested d) fun new _ => m.decls.size ≤ new)
include hnested

/-- Copying an expression appends only what copying the declarations it holds appends, and the
copy holds only those copies. -/
theorem appends_copyExpr (e : Expr) (he : ∀ y ∈ e.nestedFns, B (m.decl y).annotations) :
    Appends B m (fun _ => True) (copyExpr nested e) fun e' _ => Fresh m e' := by
  have hstable : growing.Stable fun (e' : Expr) (_ : CopyState) => Fresh m e' :=
    fun _ => Growth.persists_const _ _
  have hchild : ∀ c ∈ e.children, Appends B m (fun _ => True) (copyExpr nested c)
      fun c' _ => Fresh m c' := fun c hc =>
    appends_copyExpr c fun y hy => he y (Expr.nestedFns_subset_of_mem_children hc hy)
  -- the children first, and the declaration of a `fn` node by `nested`
  have hchildren : Appends B m (fun _ => True) (e.mapChildrenM (copyExpr nested) nested)
      fun e' _ => e'.callShape? = e.callShape? ∧ (∀ c' ∈ e'.children, Fresh m c') ∧
        ∀ d' ∈ e'.fnDecl?, m.decls.size ≤ d' :=
    Triple.mapChildrenM_fnDecl e hstable (Growth.persists_const _ True) hchild
      fun d hd => hnested d (he d (Expr.mem_nestedFns.2 (.inl hd)))
  have hrebuilt : ∀ e' : Expr, ∀ s : CopyState, (e'.callShape? = e.callShape? ∧
      (∀ c' ∈ e'.children, Fresh m c') ∧ ∀ d' ∈ e'.fnDecl?, m.decls.size ≤ d') → Fresh m e' :=
    fun _ _ h => Fresh.of_parts h.2.2 h.2.1
  rw [copyExpr.eq_def]
  dsimp only
  refine Triple.bind (appends_remapTy _) fun t => ?_
  cases e with
  | get v ty | maskBit v _ ty =>
    exact Triple.bind (appends_mapValue _) fun _ => Triple.pure _ fun _ _ => Fresh.of_leaf rfl rfl
  | set v x ty =>
    refine Triple.bind (appends_mapValue _) fun _ => ?_
    exact Triple.bind (hchild x (by simp [Expr.children])) fun _ =>
      Triple.pure _ fun _ hx => Fresh.of_parts (by simp [Expr.fnDecl?])
        (by simpa [Expr.children] using hx)
  | letVal v x ty =>
    -- the initial value is copied first; a fresh value for the binding follows
    refine Triple.bind (hchild x (by simp [Expr.children])) fun x' => ?_
    refine Triple.of_pure_pre fun hx => ?_
    refine Triple.bind appends_read fun _ => ?_
    refine Triple.bind (appends_liftExcept _) fun _ => ?_
    refine Triple.bind (appends_newValue _) fun _ => ?_
    refine Triple.bind (appends_modify_values _) fun _ => ?_
    exact Triple.pure _ fun _ _ => Fresh.of_parts (by simp [Expr.fnDecl?])
      (by simpa [Expr.children] using hx)
  | ret r x ty =>
    refine Triple.bind appends_read fun _ => ?_
    exact Triple.bind (hchild x (by simp [Expr.children])) fun _ =>
      Triple.pure _ fun _ hx => Fresh.of_parts (by simp [Expr.fnDecl?])
        (by simpa [Expr.children] using hx)
  | call tgt d x ta args cc ty =>
    refine Triple.bind hchildren fun e' => ?_
    cases e' with
    | call tgt' d' x' ta' args' cc' ty' =>
      -- a rebuilt call is renamed in its target and type arguments; its children stay
      refine Triple.of_pure_pre fun hcall => ?_
      have hfresh : ∀ tgt'' ta'', Fresh m (.call tgt'' d' x' ta'' args' cc' t) :=
        fun _ _ => Fresh.of_parts (by simp [Expr.fnDecl?]) fun c hc y hy =>
          hcall.2.1 c hc y hy
      have hta : Appends B m (fun _ => True) (ta'.mapM remapTy) fun _ _ => True :=
        (Triple.mapM (Q := fun _ _ _ => True) (fun _ _ _ _ _ h => h)
          (Growth.persists_const _ True) ta' fun ty _ => appends_remapTy ty).mono
            (fun _ h => h) fun _ _ _ => trivial
      dsimp only
      split
      · refine Triple.bind appends_read fun _ =>
          Triple.bind (Triple.pure (Q := fun _ _ => True) _ fun _ _ => trivial) fun _ => ?_
        exact Triple.bind hta fun _ => Triple.pure _ fun _ _ => hfresh _ _
      · refine Triple.bind (Triple.pure (Q := fun _ _ => True) _ fun _ _ => trivial) fun _ => ?_
        exact Triple.bind hta fun _ => Triple.pure _ fun _ _ => hfresh _ _
    | _ =>
      exact Triple.pure _ fun s h => by
        rw [Fresh, Expr.nestedFns_withTy]
        exact hrebuilt _ s h
  | _ =>
    refine Triple.bind hchildren fun e' => Triple.pure _ fun s h => ?_
    rw [Fresh, Expr.nestedFns_withTy]
    exact hrebuilt _ s h
termination_by sizeOf e
decreasing_by exact Expr.sizeOf_lt_of_mem_children hc

end Expr

section Copy

variable {fuel : Nat}
  (ih : ∀ old, B (m.decl old).annotations →
    Appends B m (fun _ => True) (copyDecl fuel old) fun new _ => m.decls.size ≤ new)
include ih

/-- The defaults of a declaration's copy are there exactly where the original's are, and fresh. -/
theorem appends_copyDefaults (ps : List Param)
    (hps : ∀ p ∈ ps, ∀ e ∈ p.default, ∀ y ∈ e.nestedFns, B (m.decl y).annotations) :
    Appends B m (fun _ => True) (ps.mapM fun p => p.default.mapM (copyExpr (copyDecl fuel)))
      fun ds _ => List.Forall₂ (fun p o => o.isSome = p.default.isSome ∧ ∀ e ∈ o, Fresh m e)
        ps ds :=
  Triple.mapM (Q := fun (p : Param) (o : Option Expr) _ => o.isSome = p.default.isSome ∧
      ∀ e ∈ o, Fresh m e)
    (fun p => stable_option (fun _ => Growth.persists_const _ _) p.default)
    (Growth.persists_const _ True) ps fun p hp => Triple.option p.default fun e he =>
      appends_copyExpr ih e (hps p hp e he)

/-- The body of a declaration's copy is there exactly where the original's is, and fresh. -/
theorem appends_copyBody (b : Option Expr) (hb : ∀ e ∈ b, ∀ y ∈ e.nestedFns, B (m.decl y).annotations) :
    Appends B m (fun _ => True) (b.mapM (copyExpr (copyDecl fuel)))
      fun b' _ => b'.isSome = b.isSome ∧ ∀ e ∈ b', Fresh m e :=
  Triple.option b fun e he => appends_copyExpr ih e (hb e he)

/-- Copying a declaration appends its copy past the arena as it was when the copy began, and
the copy stays in the arena. When `B` admits the annotations of the declaration copied and of
every declaration nested in one of `m`, and no annotations at all, it admits those of the copy. -/
theorem appends_copyDecl_succ (hB0 : B []) (hnest : ∀ z y, m.Nests z y → B (m.decl y).annotations)
    (old : DeclId) (hold : B (m.decl old).annotations) :
    Appends B m (fun _ => True) (copyDecl (fuel + 1) old)
      fun new s => m.decls.size ≤ new ∧ new < s.module.decls.size := by
  rw [copyDecl]
  refine Triple.bind appends_get_retains fun s₀ => Triple.of_pure_pre fun hs₀ => ?_
  dsimp only
  -- what the copy reads is `m`'s declaration, or one it appended, which holds only appended ones
  have hsource : B (s₀.module.decl old).annotations ∧
      ∀ y ∈ (s₀.module.decl old).nestedFns, B (m.decl y).annotations := by
    by_cases hlt : old < m.decls.size
    · rw [hs₀.decl_eq old hlt]
      exact ⟨hold, fun y hy => hnest old y hy⟩
    · refine ⟨hs₀.marks old (Nat.le_of_not_lt hlt), fun y hy => ?_⟩
      rw [Module.decl_of_size_le (hs₀.nests_fresh old (Nat.le_of_not_lt hlt) y hy)]
      exact hB0
  have hheld : ∀ e ∈ (s₀.module.decl old).owned, ∀ y ∈ e.nestedFns, B (m.decl y).annotations :=
    fun e he y hy => hsource.2 y (Decl.mem_nestedFns.2 ⟨e, he, hy⟩)
  refine Triple.bind ((Triple.mapM (Q := fun _ _ _ => True) (fun _ _ _ _ _ h => h)
    (Growth.persists_const _ True) _ fun _ _ => appends_of_decls fun _ _ _ h => by
      cases h; exact ⟨rfl, rfl, rfl, by simp [Module.newTypeParam]⟩).mono (fun _ h => h)
      fun _ _ _ => trivial) fun tps => ?_
  have hreceiver : ∀ r : Option Param, Appends B m (fun _ => True) (r.mapM copyParam)
      fun _ _ => True := fun r =>
    (Triple.option r fun p _ => (appends_copyParam p).mono (fun _ h => h)
      fun _ _ _ => trivial).mono (fun _ h => h) fun _ _ _ => trivial
  refine Triple.bind (hreceiver _) fun dispatch => ?_
  refine Triple.bind (hreceiver _) fun extension => ?_
  refine Triple.bind ((appends_copyParams _).mono (fun _ h => h) fun _ _ _ => trivial)
    fun params => ?_
  refine Triple.bind (appends_remapTy _) fun returns => ?_
  refine Triple.bind ((Triple.option _ fun t _ => appends_remapTy t).mono
    (fun _ h => h) fun _ _ _ => trivial) fun inlineArgument => ?_
  refine Triple.bind appends_get fun s => ?_
  -- the copy is appended at the end of the arena, which holds the start's arena
  generalize halloc : s.module.allocDecl _ = alloc
  obtain ⟨m', new⟩ := alloc
  have hm' : m' = (s.module.allocDecl _).1 := congrArg Prod.fst halloc.symm
  have hnew : new = s.module.decls.size := congrArg Prod.snd halloc.symm
  have hempty : ∀ x : Decl, (∀ q ∈ x.params, q.default = none) → x.body = none →
      x.nestedFns = [] := by
    intro x hx hb
    rw [Decl.nestedFns, hb, List.filterMap_eq_nil_iff.2 hx]
    rfl
  dsimp only
  refine Triple.bind (Q := fun _ t => m.decls.size ≤ new ∧ new < t.module.decls.size)
    (fun s₁ _ s' h hR (hs : s = s₁) => ?_) fun _ => ?_
  · subst hs
    cases h
    have hsize : m'.decls.size = s.module.decls.size + 1 := by
      rw [hm', Module.decls_size_allocDecl]
    -- the parameters' defaults are left out of the copy
    refine ⟨hR.allocDecl (hempty _ (by simp) rfl) ?_ hm', ?_, hnew ▸ hR.size_ge, ?_⟩
    · exact hsource.1
    · show s.module.decls.size ≤ m'.decls.size
      omega
    · show new < m'.decls.size
      rw [hnew, hsize]
      exact Nat.lt_succ_self _
  -- the defaults and body are copied, then put into the copy, which lies past the start's arena
  have hpers : growing.Persists fun t => m.decls.size ≤ new ∧ new < t.module.decls.size :=
    fun _ _ hg h => ⟨h.1, Nat.lt_of_lt_of_le h.2 hg⟩
  refine Triple.bind (((appends_copyDefaults ih _ fun p hp e he => hheld e
    (List.mem_append_left _ (List.mem_filterMap.2 ⟨p, hp, he⟩))).frame hpers).mono
    (fun _ h => ⟨trivial, h⟩) fun defaults _ h => h) fun defaults => ?_
  refine Triple.bind ((Triple.keep ((appends_copyBody ih _ fun e he => hheld e
    (List.mem_append_right _ (Option.mem_toList.2 he))).mono (fun _ _ => trivial)
    fun _ _ h => h) (fun _ _ hg h => ⟨h.1, h.2.1, Nat.lt_of_lt_of_le h.2.2 hg⟩)).mono
      (fun _ h => h) fun _ _ h => h) fun body => ?_
  refine Triple.bind (Q := fun _ t => m.decls.size ≤ new ∧ new < t.module.decls.size)
    (fun s₁ _ s' h hR hs => ?_) fun _ => Triple.pure _ fun _ h => h
  obtain ⟨hbody, hdefaults, hfresh, hlt⟩ := hs
  cases h
  have hsize : (s₁.module.putExprs new ⟨defaults, body⟩).decls.size = s₁.module.decls.size :=
    Module.decls_size_modifyDecl _ _ _
  exact ⟨hR.putExprs hfresh (forall_mem_of_forall₂ (hdefaults.imp fun _ _ h => h.2))
    hbody.2 rfl, Nat.le_of_eq hsize.symm, hfresh, hsize ▸ hlt⟩

end Copy

/-- Copying a declaration appends its copy past the arena as it was, at every fuel. -/
theorem appends_copyDecl (hB0 : B []) (hnest : ∀ z y, m.Nests z y → B (m.decl y).annotations)
    (fuel : Nat) : ∀ old, B (m.decl old).annotations →
      Appends B m (fun _ => True) (copyDecl fuel old)
        fun new s => m.decls.size ≤ new ∧ new < s.module.decls.size := by
  induction fuel with
  | zero =>
    intro _ _
    rw [copyDecl]
    exact Triple.of_fails fun _ _ _ h => by cases h
  | succ fuel ih =>
    exact appends_copyDecl_succ
      (fun old' h' => (ih old' h').mono (fun _ h => h) fun _ _ h => h.1) hB0 hnest
      
/-- Every copy starts by keeping its own state's module. -/
theorem retains_self (s : CopyState) (hB0 : B []) : Retains B s.module s where
  containers_eq := rfl
  files_eq := rfl
  size_ge := Nat.le_refl _
  decl_eq _ _ := rfl
  nests_fresh z hz y hy := by
    rw [Module.nestedDecls, Module.decl_of_size_le hz] at hy
    cases hy
  marks y hy := by
    rw [Module.decl_of_size_le hy]
    exact hB0
  typeParams_extended := List.prefix_refl _

/-- Putting the copied defaults into the copied parameters gives each parameter its name and
origin back, and a default exactly where the original has one. -/
theorem forall₂_putDefaults :
    ∀ {ps qs : List Param} {ds : List (Option Expr)},
      List.Forall₂ (fun p q => ∃ v ty vararg, q = { p with value := v, ty, vararg, default := none })
        ps qs →
      List.Forall₂ (fun p o => o.isSome = p.default.isSome) ps ds →
      List.Forall₂ (fun p q => q.name = p.name ∧ q.origin = p.origin ∧
        q.default.isSome = p.default.isSome) ps (Module.putDefaults qs ds)
  | _, _, _, .nil, .nil => .nil
  | _, _, _, .cons hq hqs, .cons hd hds => by
    obtain ⟨_, _, _, rfl⟩ := hq
    exact .cons ⟨rfl, rfl, hd⟩ (forall₂_putDefaults hqs hds)

end CopyState

/-- `y` is a copy of `x`: `x` with its own references renewed. Its type parameters, receivers,
parameter values and types, return type and inline argument may be renamed, it is detached, and
its defaults and body are copies: each parameter keeps its name and origin and has a default
exactly where `x`'s has one, and `y` has a body exactly where `x` has one. Everything else, from
the name and kind to the overrides and annotations, is `x`'s. -/
structure Decl.CopyOf (x y : Decl) : Prop where
  rest : { y with
    typeParams := x.typeParams, dispatch := x.dispatch, extension := x.extension,
    params := x.params, returns := x.returns, inlineArgument := x.inlineArgument,
    parent := x.parent, body := x.body } = x
  params : List.Forall₂ (fun p q => q.name = p.name ∧ q.origin = p.origin ∧
    q.default.isSome = p.default.isSome) x.params y.params
  body : y.body.isSome = x.body.isSome

namespace CopyState

open StepSemantics

/-- The declaration a copy appends is a copy of its original: the copier fills in its fresh
parameters, then copies the defaults and the body, which appends only past it, and puts them
in. -/
theorem copyDecl_copyOf {fuel : Nat} {old new : DeclId} {s s' : CopyState}
    (h : copyDecl (fuel + 1) old s = .ok (new, s')) :
    (s.module.decl old).CopyOf (s'.module.decl new) := by
  rw [copyDecl] at h
  obtain ⟨_, _, h₀, h⟩ := sem.bind_ok h
  cases h₀
  obtain ⟨tps, s₁, h₁, h⟩ := sem.bind_ok h
  obtain ⟨dispatch, s₂, h₂, h⟩ := sem.bind_ok h
  obtain ⟨extension, s₃, h₃, h⟩ := sem.bind_ok h
  obtain ⟨params, s₄, h₄, h⟩ := sem.bind_ok h
  obtain ⟨returns, s₅, h₅, h⟩ := sem.bind_ok h
  obtain ⟨inlineArgument, s₆, h₆, h⟩ := sem.bind_ok h
  obtain ⟨_, _, h₇, h⟩ := sem.bind_ok h
  cases h₇
  generalize halloc : s₆.module.allocDecl _ = alloc at h
  obtain ⟨m₁, new₁⟩ := alloc
  obtain ⟨_, s₇, h₈, h⟩ := sem.bind_ok h
  have hs₇ : s₇.module = m₁ := by cases h₈; rfl
  obtain ⟨defaults, s₈, h₉, h⟩ := sem.bind_ok h
  obtain ⟨body, s₉, h₁₀, h⟩ := sem.bind_ok h
  obtain ⟨_, _, h₁₁, h⟩ := sem.bind_ok h
  cases h₁₁
  cases h
  -- the parameters are copied without defaults; the defaults and the body are copied past the
  -- copy, which they leave as it was allocated
  have ih : ∀ old', True → Appends (fun _ => True) s₇.module (fun _ => True) (copyDecl fuel old')
      fun new' _ => s₇.module.decls.size ≤ new' := fun old' _ =>
    (appends_copyDecl trivial (fun _ _ _ => trivial) fuel old' trivial).mono (fun _ h => h)
      fun _ _ h => h.1
  obtain ⟨-, -, hparams⟩ := appends_copyParams _ s₃ params s₄ h₄
    (retains_self (B := fun _ => True) s₃ trivial) trivial
  obtain ⟨hR₈, -, hdefaults⟩ := appends_copyDefaults ih _ (fun _ _ _ _ _ _ => trivial) s₇ defaults
    s₈ h₉ (retains_self (B := fun _ => True) s₇ trivial) trivial
  obtain ⟨hR₉, -, hbody⟩ :=
    appends_copyBody ih _ (fun _ _ _ _ => trivial) s₈ body s₉ h₁₀ hR₈ trivial
  have hnew : new = s₆.module.decls.size := congrArg Prod.snd halloc.symm
  have hm₁ : s₇.module = (s₆.module.allocDecl _).1 := hs₇.trans (congrArg Prod.fst halloc.symm)
  have hlt : new < s₇.module.decls.size := by
    rw [hm₁, Module.decls_size_allocDecl, hnew]
    exact Nat.lt_succ_self _
  have hcopy := hR₉.decl_eq new hlt
  rw [hm₁, Module.decl_allocDecl, if_pos hnew] at hcopy
  dsimp only
  rw [Module.putExprs, Module.decl_modifyDecl, if_pos ⟨rfl, Nat.lt_of_lt_of_le hlt hR₉.size_ge⟩,
    hcopy]
  have hcleared : List.Forall₂ (fun p q => ∃ v ty vararg,
      q = { p with value := v, ty, vararg, default := none }) (s.module.decl old).params
      (params.map fun p => { p with default := none }) :=
    List.forall₂_map_right_iff.2 (hparams.imp fun _ _ hq => by
    obtain ⟨v, ty, vararg, hq⟩ := hq
    exact ⟨v, ty, vararg, by rw [hq]⟩)
  exact ⟨rfl, forall₂_putDefaults hcleared (hdefaults.imp fun _ _ h => h.1), hbody.1⟩

end CopyState

/-- A deep copy is a run of the copier from the module, at one level of nesting more than the
arena has declarations. -/
theorem Module.deepCopy_run {m m' : Module} {d new : DeclId} (h : m.deepCopy d = .ok (m', new)) :
    ∃ s', CopyState.copyDecl (m.decls.size + 1) d { module := m } = .ok (new, s') ∧
      s'.module = m' := by
  unfold Module.deepCopy at h
  cases hrun : CopyState.copyDecl (m.decls.size + 1) d { module := m } with
  | error e => rw [StateT.run, hrun] at h; cases h
  | ok r =>
    obtain ⟨new', s'⟩ := r
    rw [StateT.run, hrun] at h
    cases h
    exact ⟨s', rfl, rfl⟩

/-- A deep copy keeps the containers, the files and every declaration of the arena, appends the
copy past them, and what it appends holds only what it appended. -/
theorem Module.deepCopy_retains {m m' : Module} {d new : DeclId}
    (h : m.deepCopy d = .ok (m', new)) :
    m'.containers = m.containers ∧ m'.files = m.files ∧ m.decls.size ≤ new ∧
      new < m'.decls.size ∧ (∀ x < m.decls.size, m'.decl x = m.decl x) ∧
      ∀ z, m.decls.size ≤ z → ∀ y ∈ m'.nestedDecls z, m.decls.size ≤ y := by
  obtain ⟨s', hrun, rfl⟩ := Module.deepCopy_run h
  obtain ⟨hR, -, hnew⟩ := CopyState.appends_copyDecl (B := fun _ => True) trivial
    (fun _ _ _ => trivial) (m.decls.size + 1) d trivial { module := m } new s' hrun
    (CopyState.retains_self _ trivial) trivial
  exact ⟨hR.containers_eq, hR.files_eq, hnew.1, hnew.2, hR.decl_eq, hR.nests_fresh⟩

/-- A deep copy only appends type parameters. -/
theorem Module.deepCopy_typeParams {m m' : Module} {d new : DeclId}
    (h : m.deepCopy d = .ok (m', new)) : m.typeParams.toList <+: m'.typeParams.toList := by
  obtain ⟨s', hrun, rfl⟩ := Module.deepCopy_run h
  exact (CopyState.appends_copyDecl (B := fun _ => True) trivial (fun _ _ _ => trivial)
    (m.decls.size + 1) d trivial { module := m } new s' hrun
    (CopyState.retains_self _ trivial) trivial).1.typeParams_extended

/-- A deep copy appends declarations whose annotations are those of the declarations it copies:
the root and the declarations nested in it. So when `B` admits the annotations of the root, of
every declaration nested in one of `m`, and no annotations at all, it admits those of every
declaration the copy appends. -/
theorem Module.deepCopy_marks {m m' : Module} {d new : DeclId} {B : List Annotation → Prop}
    (hB0 : B []) (hnest : ∀ z y, m.Nests z y → B (m.decl y).annotations)
    (hroot : B (m.decl d).annotations) (h : m.deepCopy d = .ok (m', new)) :
    ∀ y, m.decls.size ≤ y → B (m'.decl y).annotations := by
  obtain ⟨s', hrun, rfl⟩ := Module.deepCopy_run h
  exact (CopyState.appends_copyDecl hB0 hnest (m.decls.size + 1) d hroot { module := m } new s'
    hrun (CopyState.retains_self { module := m } hB0) trivial).1.marks

/-- A deep copy of `d` is a copy of `d`. -/
theorem Module.deepCopy_copyOf {m m' : Module} {d new : DeclId}
    (h : m.deepCopy d = .ok (m', new)) : (m.decl d).CopyOf (m'.decl new) := by
  obtain ⟨s', hrun, rfl⟩ := Module.deepCopy_run h
  exact CopyState.copyDecl_copyOf hrun

end ComposeLowering
