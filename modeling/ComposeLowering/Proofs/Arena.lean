import ComposeLowering.Proofs.WellFormed

/-!
# Reading the arena after an edit

Every pass changes a module through a few edits of its declaration arena: replacing or changing
one declaration, appending one, and taking a declaration's defaults and body out and putting
them back. Each edit gets an equation for the declaration read at any index afterwards, so that
later proofs never unfold `Array.modify`.

## Expressions node by node

`Expr.All P e` says that every node of `e` satisfies `P`, without entering nested declarations.
A pass that rebuilds a node from its rebuilt children (`Expr.mapChildrenM`) is read through one
equation per kind of node.

## Reparenting and reannotating

Parents and annotations are bookkeeping. Adding or replacing a member and recomputing the
parents (`patchParents`) change the containers and the `parent` field of declarations and
nothing else; recording decoy signatures changes annotations and nothing else. So whatever the
passes read of a declaration survives them. `Module.Agrees forget m m'` says this: the same
arena, declaration by declaration, once `forget` has dropped the field that changed.
`Module.Reparented` and `Module.Reannotated` are its two instances.
-/

namespace ComposeLowering

namespace Module

variable (m : Module)

@[simp] theorem decls_size_modifyDecl (i : DeclId) (f : Decl → Decl) :
    (m.modifyDecl i f).decls.size = m.decls.size := by
  simp [modifyDecl]

theorem decl_modifyDecl (i j : DeclId) (f : Decl → Decl) :
    (m.modifyDecl i f).decl j = if i = j ∧ j < m.decls.size then f (m.decl j) else m.decl j := by
  simp only [decl, modifyDecl, Array.getElem?_modify]
  by_cases hij : i = j
  · subst hij
    by_cases hj : i < m.decls.size
    · simp [hj]
    · simp [hj]
  · simp [hij]

@[simp] theorem decls_size_setDecl (i : DeclId) (x : Decl) :
    (m.setDecl i x).decls.size = m.decls.size := by
  simp [setDecl]

theorem decl_setDecl (i j : DeclId) (x : Decl) :
    (m.setDecl i x).decl j = if i = j ∧ j < m.decls.size then x else m.decl j := by
  simp only [decl, setDecl, Array.getElem?_setIfInBounds]
  by_cases hij : i = j
  · subst hij
    by_cases hj : i < m.decls.size
    · simp [hj]
    · simp [hj]
  · simp [hij]

@[simp] theorem decls_size_allocDecl (x : Decl) :
    (m.allocDecl x).1.decls.size = m.decls.size + 1 := by
  simp [allocDecl]

@[simp] theorem allocDecl_snd (x : Decl) : (m.allocDecl x).2 = m.decls.size := rfl

theorem decl_allocDecl (x : Decl) (j : DeclId) :
    (m.allocDecl x).1.decl j = if j = m.decls.size then x else m.decl j := by
  simp only [decl, allocDecl, Array.getElem?_push]
  split <;> simp

@[simp] theorem newValue_decls (name : String) : (m.newValue name).1.decls = m.decls := rfl

theorem decl_congr {m' : Module} (h : m'.decls = m.decls) (d : DeclId) : m'.decl d = m.decl d := by
  simp [decl, h]

/-- A module is fixed by its declarations once everything else is. -/
theorem eq_of_decl_eq {M₁ M₂ : Module}
    (hrest : { M₁ with decls := #[] } = { M₂ with decls := #[] })
    (hsize : M₁.decls.size = M₂.decls.size) (hdecl : ∀ d, M₁.decl d = M₂.decl d) : M₁ = M₂ := by
  have hdecls : M₁.decls = M₂.decls := Array.ext hsize fun i h₁ h₂ => by
    simpa [decl, h₁, h₂] using hdecl i
  cases M₁
  cases M₂
  cases hrest
  cases hdecls
  rfl

theorem takeExprs_fst (i : DeclId) :
    (m.takeExprs i).1 = m.setDecl i { m.decl i with
      params := (m.decl i).params.map fun p => { p with default := none }, body := none } := rfl

theorem takeExprs_snd (i : DeclId) :
    (m.takeExprs i).2 = ⟨(m.decl i).params.map (·.default), (m.decl i).body⟩ := rfl


end Module

/-! ## Putting defaults back -/

/-- A parameter with its default taken out. -/
def Param.undefaulted (p : Param) : Param := { p with default := none }

theorem map_undefaulted_putDefaults :
    ∀ (ps : List Param) (ds : List (Option Expr)),
      (Module.putDefaults ps ds).map Param.undefaulted = ps.map Param.undefaulted
  | [], [] => rfl
  | [], _ :: _ => rfl
  | _ :: _, [] => rfl
  | p :: ps, _ :: ds => by
    simp only [Module.putDefaults, List.map_cons, map_undefaulted_putDefaults ps ds]
    rfl

theorem map_origin_putDefaults :
    ∀ (ps : List Param) (ds : List (Option Expr)),
      (Module.putDefaults ps ds).map (·.origin) = ps.map (·.origin)
  | [], [] => rfl
  | [], _ :: _ => rfl
  | _ :: _, [] => rfl
  | p :: ps, _ :: ds => by
    simp only [Module.putDefaults, List.map_cons, map_origin_putDefaults ps ds]

/-- Putting defaults back into parameters whose defaults were taken out sets each one. -/
theorem putDefaults_map_cleared (f : Param → Option Expr) :
    ∀ ps : List Param,
      Module.putDefaults (ps.map fun p => { p with default := none }) (ps.map f) =
        ps.map fun p => { p with default := f p }
  | [] => rfl
  | p :: ps => by
    rw [List.map_cons, List.map_cons, Module.putDefaults, putDefaults_map_cleared f ps,
      List.map_cons]

theorem mem_owned_putDefaults :
    ∀ {ps : List Param} {ds : List (Option Expr)} {e : Expr},
      e ∈ (Module.putDefaults ps ds).filterMap (·.default) →
      e ∈ ds.filterMap id ∨ e ∈ ps.filterMap (·.default)
  | [], [], _, h => by simp [Module.putDefaults] at h
  | [], _ :: _, _, h => by simp [Module.putDefaults] at h
  | _ :: _, [], _, h => .inr (by simpa [Module.putDefaults] using h)
  | p :: ps, d :: ds, e, h => by
    have hps : ps.filterMap (·.default) ⊆ (p :: ps).filterMap (·.default) :=
      ((List.sublist_cons_self p ps).filterMap _).subset
    have hds : ds.filterMap id ⊆ (d :: ds).filterMap id :=
      ((List.sublist_cons_self d ds).filterMap _).subset
    rw [Module.putDefaults, List.filterMap_cons] at h
    cases d with
    | none =>
      rcases mem_owned_putDefaults h with h | h
      · exact .inl (hds h)
      · exact .inr (hps h)
    | some x =>
      rcases List.mem_cons.1 h with rfl | h
      · exact .inl (by simp)
      · rcases mem_owned_putDefaults h with h | h
        · exact .inl (hds h)
        · exact .inr (hps h)

/-- A declaration has a default value exactly when its parameters hold a default expression. -/
theorem Decl.hasDefaultValues_iff {x : Decl} :
    x.hasDefaultValues = true ↔ ∃ e, e ∈ x.params.filterMap (·.default) := by
  simp only [Decl.hasDefaultValues, List.any_eq_true, Option.isSome_iff_exists, List.mem_filterMap]
  constructor
  · rintro ⟨p, hp, e, he⟩
    exact ⟨e, p, hp, he⟩
  · rintro ⟨e, p, hp, he⟩
    exact ⟨p, hp, e, he⟩

/-- Putting defaults back brings in a default value only where one is put. -/
theorem hasDefaultValues_of_putDefaults {x y : Decl} {ds : List (Option Expr)}
    (hy : y.params = Module.putDefaults x.params ds) (h : y.hasDefaultValues = true) :
    x.hasDefaultValues = true ∨ ∃ o ∈ ds, o.isSome = true := by
  obtain ⟨e, he⟩ := Decl.hasDefaultValues_iff.1 h
  rw [hy] at he
  rcases mem_owned_putDefaults he with he | he
  · obtain ⟨o, ho, hoe⟩ := List.mem_filterMap.1 he
    exact .inr ⟨o, ho, Option.isSome_iff_exists.2 ⟨e, hoe⟩⟩
  · exact .inl (Decl.hasDefaultValues_iff.2 ⟨e, he⟩)

/-! ## Expressions node by node -/

/-- What a node is apart from its children, as far as calls go: for a call, its target,
whether it is marked composable, and which of its argument slots are filled. -/
def Expr.callShape? : Expr → Option (CallTarget × Bool × List Bool)
  | .call tgt _ _ _ args cc _ => some (tgt, cc, args.map Option.isSome)
  | _ => none

@[simp] theorem Expr.callShape?_ofCall (c : Call) (t : Ty) :
    (Expr.ofCall c t).callShape? = some (c.target, c.composable, c.args.map Option.isSome) := rfl

/-- A node's call shape is read off the call it makes. -/
theorem Expr.callShape?_of_call? {e : Expr} {c : Call} (h : e.call? = some c) :
    e.callShape? = some (c.target, c.composable, c.args.map Option.isSome) := by
  cases e with
  | call tgt d x ta args cc t =>
    cases h
    rfl
  | _ => simp [Expr.call?] at h

/-- A call given new arguments keeps its receivers, so a child of it is a child of the call or
one of the new arguments: one it had, or one that satisfies `R`. -/
theorem Expr.mem_children_rewritten {c : Call} {target : CallTarget} {args : List (Option Expr)}
    {t t' : Ty} {R : Expr → Prop} {a : Expr}
    (hargs : ∀ a ∈ args.filterMap id, a ∈ c.args.filterMap id ∨ R a)
    (ha : a ∈ (Expr.ofCall { c with target, args, composable := true } t).children) :
    a ∈ (Expr.ofCall c t').children ∨ R a := by
  simp only [Expr.ofCall, Expr.children, List.mem_append] at ha
  rcases ha with (ha | ha) | ha
  · exact .inl (by simp [Expr.ofCall, Expr.children, ha])
  · exact .inl (by simp [Expr.ofCall, Expr.children, ha])
  · refine (hargs a ha).imp_left fun ha => ?_
    simp only [Expr.ofCall, Expr.children, List.mem_append]
    exact .inr ha

/-- Every node of the expression satisfies `P`; nested declarations are not entered. -/
def Expr.All (P : Expr → Prop) (e : Expr) : Prop := ∀ x ∈ e.nodes, P x

/-- A property holds of every node of a declaration exactly when every expression it owns
satisfies it throughout. -/
theorem Decl.forall_nodes_iff {P : Expr → Prop} {x : Decl} :
    (∀ e ∈ x.nodes, P e) ↔ ∀ o ∈ x.owned, o.All P := by
  simp only [Decl.nodes, List.mem_flatMap, Expr.All]
  exact ⟨fun h o ho e he => h e ⟨o, ho, he⟩, fun h e ⟨o, ho, he⟩ => h o ho e he⟩

theorem Expr.mem_nodes {e x : Expr} : x ∈ e.nodes ↔ x = e ∨ ∃ c ∈ e.children, x ∈ c.nodes := by
  rw [Expr.nodes]
  simp

theorem Expr.all_iff {P : Expr → Prop} {e : Expr} :
    e.All P ↔ P e ∧ ∀ c ∈ e.children, c.All P := by
  constructor
  · intro h
    exact ⟨h e (Expr.mem_nodes.2 (.inl rfl)),
      fun c hc x hx => h x (Expr.mem_nodes.2 (.inr ⟨c, hc, hx⟩))⟩
  · rintro ⟨he, hc⟩ x hx
    rcases Expr.mem_nodes.1 hx with rfl | ⟨c, hmem, hx⟩
    · exact he
    · exact hc c hmem x hx

section Rebuild

variable {m : Type → Type} [Monad m] (f : Expr → m Expr) (g : DeclId → m DeclId)

/-! The rebuilding of a node from its children, with the membership proofs that the definition
threads through `attach` dropped and each optional child mapped by `Option.mapM`. -/

theorem Expr.mapChildrenM_ite (c a : Expr) (b : Option Expr) (t : Ty) :
    (Expr.ite c a b t).mapChildrenM f g =
      (do let c' ← f c; let a' ← f a; let b' ← b.mapM f; pure (.ite c' a' b' t)) := by
  cases b <;> rfl

theorem Expr.mapChildrenM_call [LawfulMonad m] (tgt : CallTarget) (d x : Option Expr) (ta : List Ty)
    (as : List (Option Expr)) (cc : Bool) (t : Ty) :
    (Expr.call tgt d x ta as cc t).mapChildrenM f g =
      (do let d' ← d.mapM f; let x' ← x.mapM f; let as' ← as.mapM (·.mapM f)
          pure (.call tgt d' x' ta as' cc t)) := by
  simp only [Expr.mapChildrenM, Expr.traverseChildren]
  rw [List.mapM_subtype (g := (·.mapM f)) (fun o _ => by cases o <;> rfl), List.unattach_attach]
  cases d <;> cases x <;> rfl

theorem Expr.mapChildrenM_list [LawfulMonad m] (xs : List Expr) (t : Ty) (o : CompositeOrigin) :
    (Expr.block xs t).mapChildrenM f g = (do pure (.block (← xs.mapM f) t)) ∧
    (Expr.composite o xs t).mapChildrenM f g = (do pure (.composite o (← xs.mapM f) t)) ∧
    (Expr.vararg xs t).mapChildrenM f g = (do pure (.vararg (← xs.mapM f) t)) := by
  simp only [Expr.mapChildrenM, Expr.traverseChildren]
  rw [List.mapM_subtype (g := f) (fun _ _ => rfl), List.unattach_attach]
  exact ⟨rfl, rfl, rfl⟩

end Rebuild

theorem Expr.All.child {P : Expr → Prop} {e c : Expr} (h : e.All P) (hc : c ∈ e.children) :
    c.All P :=
  (Expr.all_iff.1 h).2 c hc

theorem Expr.All.imp {P Q : Expr → Prop} {e : Expr} (h : e.All P) (hPQ : ∀ x, P x → Q x) :
    e.All Q :=
  fun x hx => hPQ x (h x hx)

@[simp] theorem Expr.callShape?_withTy (e : Expr) (t : Ty) :
    (e.withTy t).callShape? = e.callShape? := by
  cases e <;> rfl

@[simp] theorem Expr.children_withTy (e : Expr) (t : Ty) : (e.withTy t).children = e.children := by
  cases e <;> rfl

/-- A property of nodes that reads only the call shape holds of a node rebuilt with the same
call shape from children that satisfy it. -/
theorem Expr.All.rebuilt {P : Expr → Prop}
    (hP : ∀ {x y : Expr}, x.callShape? = y.callShape? → P y → P x) {e e' : Expr}
    (hshape : e'.callShape? = e.callShape?) (hchildren : ∀ c ∈ e'.children, c.All P)
    (he : e.All P) : e'.All P :=
  Expr.all_iff.2 ⟨hP hshape (Expr.all_iff.1 he).1, hchildren⟩

/-! ## Agreement up to a forgotten field -/

namespace Module

/-- `m'` is `m` with at most its containers changed and, in each declaration, what `forget`
drops. -/
structure Agrees (forget : Decl → Decl) (m m' : Module) : Prop where
  size_eq : m'.decls.size = m.decls.size
  decl_eq : ∀ d, forget (m'.decl d) = forget (m.decl d)

namespace Agrees

variable {forget : Decl → Decl} {m m' m'' : Module}

theorem refl (m : Module) : Agrees forget m m := ⟨rfl, fun _ => rfl⟩

theorem trans (h : Agrees forget m m') (h' : Agrees forget m' m'') : Agrees forget m m'' :=
  ⟨h'.size_eq.trans h.size_eq, fun d => (h'.decl_eq d).trans (h.decl_eq d)⟩

/-- Whatever does not read the forgotten field reads the same in both modules. -/
theorem congr {β : Type} (h : Agrees forget m m') {f : Decl → β} (hf : ∀ x, f (forget x) = f x)
    (d : DeclId) : f (m'.decl d) = f (m.decl d) := by
  rw [← hf, h.decl_eq d, hf]

/-- A fold whose every step agrees agrees. -/
theorem foldl {α : Type} {f : Module → α → Module} (hf : ∀ m a, Agrees forget m (f m a)) :
    ∀ (xs : List α) (m : Module), Agrees forget m (xs.foldl f m)
  | [], m => refl m
  | x :: xs, m => (hf m x).trans (foldl hf xs (f m x))

/-- Changing one declaration only in what `forget` drops. -/
theorem modifyDecl {f : Decl → Decl} (hf : ∀ x, forget (f x) = forget x) (i : DeclId) :
    Agrees forget m (m.modifyDecl i f) := by
  refine ⟨by simp, fun d => ?_⟩
  rw [decl_modifyDecl]
  split
  · exact hf _
  · rfl

end Agrees

end Module

/-! ## Reparenting -/

/-- A declaration with its parent forgotten. -/
def Decl.unparented (d : Decl) : Decl := { d with parent := .detached }

/-- A declaration with its annotations forgotten. -/
def Decl.unannotated (d : Decl) : Decl := { d with annotations := [] }

namespace Module

/-- `m'` is `m` with at most its containers and the parents of its declarations changed. -/
abbrev Reparented : Module → Module → Prop := Agrees Decl.unparented

/-- `m'` is `m` with at most the annotations of its declarations changed. -/
abbrev Reannotated : Module → Module → Prop := Agrees Decl.unannotated

namespace Reparented

variable {m m' : Module}

theorem params_eq (h : Reparented m m') (d : DeclId) : (m'.decl d).params = (m.decl d).params :=
  h.congr (f := Decl.params) (fun _ => rfl) d

theorem owned_eq (h : Reparented m m') (d : DeclId) : (m'.decl d).owned = (m.decl d).owned :=
  h.congr (f := Decl.owned) (fun _ => rfl) d

end Reparented

variable {m : Module}

theorem reparented_modifyContainer (c : ContainerId) (f : Container → Container) :
    Reparented m (m.modifyContainer c f) := ⟨rfl, fun _ => rfl⟩

theorem reparented_setParent (i : DeclId) (p : Parent) :
    Reparented m (m.modifyDecl i fun x => { x with parent := p }) :=
  Agrees.modifyDecl (f := fun x => { x with parent := p }) (fun _ => rfl) i

theorem reparented_addMember (c : ContainerId) (d : DeclId) : Reparented m (m.addMember c d) :=
  (reparented_modifyContainer c _).trans (reparented_setParent d _)

theorem reparented_replaceMember (c : ContainerId) (old new : DeclId) :
    Reparented m (m.replaceMember c old new) := by
  unfold replaceMember
  split
  · exact (reparented_modifyContainer c _).trans (reparented_setParent new _)
  · exact Agrees.refl m

/-- Making `outer` the parent of its nested declarations, downwards, only reparents. -/
theorem reparented_patchNested : ∀ (fuel : Nat) (m : Module) (outer : DeclId),
    Reparented m (m.patchNested fuel outer)
  | 0, m, _ => Agrees.refl m
  | fuel + 1, m, outer => by
    rw [patchNested]
    exact (Agrees.foldl (fun _ n => reparented_setParent n _) _ m).trans
      (Agrees.foldl (fun m n => reparented_patchNested fuel m n) _ _)

theorem reparented_detachAll :
    Reparented m { m with decls := m.decls.map fun (d : Decl) => { d with parent := .detached } } := by
  refine ⟨by simp, fun d => ?_⟩
  simp only [decl, Array.getElem?_map]
  cases m.decls[d]? <;> rfl

/-- Recomputing the parents only reparents. -/
theorem reparented_patchParents : Reparented m m.patchParents := by
  rw [patchParents]
  refine reparented_detachAll.trans (Agrees.foldl (fun m c => ?_) _ _)
  exact Agrees.foldl (fun _ d =>
    (reparented_setParent d _).trans (reparented_patchNested _ _ d)) _ m

end Module

end ComposeLowering
