import ComposeLowering.Proofs.Decoy.Stubs
import ComposeLowering.Proofs.Decoys

/-!
# Calls and overrides redirected to implementations

The pass that substitutes decoy calls walks every reachable declaration that is not a decoy,
replaces each of its overrides by the implementation it stands for, and does the same for the
target of every call of a declaration in its defaults and body, children first.

`Expr.retarget σ` is that walk as a function: every call of a declaration `t` becomes a call of
`σ t`, and nothing else changes. `Decl.retarget σ` applies it to the defaults and the body and
maps the overrides. When `σ` sends each decoy to the implementation found among the members of
its container and fixes everything else, the pass never fails, and every reachable declaration
that is not a decoy ends as its `Decl.retarget σ` (`retargetModule_spec`). A declaration may be
reached twice; the second visit changes nothing, since an implementation is no decoy and `σ`
fixes it.
-/

namespace ComposeLowering

namespace Expr

/-- A node rebuilt with each child replaced by `F`; nothing else changes. -/
def mapChildren (F : Expr → Expr) (e : Expr) : Expr :=
  Id.run (e.mapChildrenM (fun c => pure (F c)) pure)

/-- A node with its call target, when it calls a declaration, replaced through `σ`. -/
def retargetNode (σ : DeclId → DeclId) : Expr → Expr
  | .call (.decl t) d x ta args cc ty => .call (.decl (σ t)) d x ta args cc ty
  | e => e

/-- An expression with every call of a declaration redirected through `σ`, children first. -/
def retarget (σ : DeclId → DeclId) (e : Expr) : Expr :=
  retargetNode σ (Id.run (e.traverseChildren
    (fun c h => have := sizeOf_lt_of_mem_children h; pure (retarget σ c)) pure))
termination_by sizeOf e

theorem retarget_eq (σ : DeclId → DeclId) (e : Expr) :
    e.retarget σ = (e.mapChildren (retarget σ)).retargetNode σ := by
  rw [retarget]
  rfl

section MapChildren

variable (F G : Expr → Expr)

theorem run_mapM_pure_option (o : Option Expr) : Id.run (o.mapM fun c => pure (F c)) = o.map F := by
  cases o <;> rfl

theorem mapChildren_call (tgt : CallTarget) (d x : Option Expr) (ta : List Ty)
    (as : List (Option Expr)) (cc : Bool) (t : Ty) :
    (Expr.call tgt d x ta as cc t).mapChildren F =
      .call tgt (d.map F) (x.map F) ta (as.map (·.map F)) cc t := by
  simp only [mapChildren, mapChildrenM_call]
  cases d <;> cases x <;> simp <;> exact fun a _ => run_mapM_pure_option F a

theorem mapChildren_ite (c a : Expr) (b : Option Expr) (t : Ty) :
    (Expr.ite c a b t).mapChildren F = .ite (F c) (F a) (b.map F) t := by
  simp only [mapChildren, mapChildrenM_ite]
  cases b <;> rfl

theorem mapChildren_list (xs : List Expr) (t : Ty) (o : CompositeOrigin) :
    (Expr.block xs t).mapChildren F = .block (xs.map F) t ∧
    (Expr.composite o xs t).mapChildren F = .composite o (xs.map F) t ∧
    (Expr.vararg xs t).mapChildren F = .vararg (xs.map F) t := by
  simp only [mapChildren, (mapChildrenM_list _ _ xs t o).1, (mapChildrenM_list _ _ xs t o).2.1,
    (mapChildrenM_list _ _ xs t o).2.2]
  simp [List.mapM_pure]

/-- The rebuilt node's children are the old ones, replaced. -/
theorem children_mapChildren (e : Expr) : (e.mapChildren F).children = e.children.map F := by
  cases e with
  | call tgt d x ta as cc t =>
    rw [mapChildren_call]
    cases d <;> cases x <;> simp [children, List.filterMap_map, List.map_filterMap]
  | ite c a b t =>
    rw [mapChildren_ite]
    cases b <;> rfl
  | block xs t => rw [(mapChildren_list F xs t .statements).1]; rfl
  | composite o xs t => rw [(mapChildren_list F xs t o).2.1]; rfl
  | vararg xs t => rw [(mapChildren_list F xs t .statements).2.2]; rfl
  | _ => rfl

theorem fnDecl?_mapChildren (e : Expr) : (e.mapChildren F).fnDecl? = e.fnDecl? := by
  cases e with
  | call tgt d x ta as cc t => rw [mapChildren_call]; rfl
  | ite c a b t => rw [mapChildren_ite]; rfl
  | block xs t => rw [(mapChildren_list F xs t .statements).1]; rfl
  | composite o xs t => rw [(mapChildren_list F xs t o).2.1]; rfl
  | vararg xs t => rw [(mapChildren_list F xs t .statements).2.2]; rfl
  | _ => rfl

/-- Only what replaces the children matters. -/
theorem mapChildren_congr {e : Expr} (h : ∀ c ∈ e.children, F c = G c) :
    e.mapChildren F = e.mapChildren G := by
  cases e with
  | call tgt d x ta as cc t =>
    rw [mapChildren_call, mapChildren_call]
    simp only [children, List.mem_append, Option.mem_toList, List.mem_filterMap, id] at h
    congr 1
    · cases d <;> simp_all
    · cases x <;> simp_all
    · refine List.map_congr_left fun o ho => ?_
      cases o with
      | none => rfl
      | some y => exact congrArg some (h y (.inr ⟨some y, ho, rfl⟩))
  | ite c a b t =>
    rw [mapChildren_ite, mapChildren_ite]
    simp only [children, List.mem_cons, Option.mem_toList] at h
    cases b <;> simp_all
  | block xs t =>
    rw [(mapChildren_list F xs t .statements).1, (mapChildren_list G xs t .statements).1]
    exact congrArg (block · t) (List.map_congr_left h)
  | composite o xs t =>
    rw [(mapChildren_list F xs t o).2.1, (mapChildren_list G xs t o).2.1]
    exact congrArg (composite o · t) (List.map_congr_left h)
  | vararg xs t =>
    rw [(mapChildren_list F xs t .statements).2.2, (mapChildren_list G xs t .statements).2.2]
    exact congrArg (vararg · t) (List.map_congr_left h)
  | set v y t | letVal v y t | ret v y t | inlineNew y t =>
    simp only [children, List.mem_singleton, forall_eq] at h
    simp only [mapChildren, mapChildrenM, traverseChildren, h]
  | _ => rfl

theorem mapChildren_mapChildren (e : Expr) :
    (e.mapChildren F).mapChildren G = e.mapChildren (G ∘ F) := by
  cases e with
  | call tgt d x ta as cc t =>
    rw [mapChildren_call, mapChildren_call, mapChildren_call]
    cases d <;> cases x <;> simp [Function.comp_def, Option.map_map]
  | ite c a b t =>
    rw [mapChildren_ite, mapChildren_ite, mapChildren_ite]
    cases b <;> rfl
  | block xs t =>
    rw [(mapChildren_list F xs t .statements).1, (mapChildren_list G _ t .statements).1,
      (mapChildren_list _ xs t .statements).1, List.map_map]
  | composite o xs t =>
    rw [(mapChildren_list F xs t o).2.1, (mapChildren_list G _ t o).2.1,
      (mapChildren_list _ xs t o).2.1, List.map_map]
  | vararg xs t =>
    rw [(mapChildren_list F xs t .statements).2.2, (mapChildren_list G _ t .statements).2.2,
      (mapChildren_list _ xs t .statements).2.2, List.map_map]
  | _ => rfl

end MapChildren

section Retarget

variable (σ : DeclId → DeclId)

theorem children_retargetNode (e : Expr) : (e.retargetNode σ).children = e.children := by
  cases e with
  | call tgt => cases tgt <;> rfl
  | _ => rfl

theorem fnDecl?_retargetNode (e : Expr) : (e.retargetNode σ).fnDecl? = e.fnDecl? := by
  cases e with
  | call tgt => cases tgt <;> rfl
  | _ => rfl

/-- Rebuilding the children and redirecting the node's own call commute. -/
theorem retargetNode_mapChildren (F : Expr → Expr) (e : Expr) :
    (e.mapChildren F).retargetNode σ = (e.retargetNode σ).mapChildren F := by
  cases e with
  | call tgt d x ta as cc t =>
    cases tgt <;> rw [mapChildren_call] <;> simp only [retargetNode] <;> rw [mapChildren_call]
  | ite c a b t =>
    show _ = (Expr.ite c a b t).mapChildren F
    rw [mapChildren_ite]
    rfl
  | block xs t =>
    show _ = (Expr.block xs t).mapChildren F
    rw [(mapChildren_list F xs t .statements).1]
    rfl
  | composite o xs t =>
    show _ = (Expr.composite o xs t).mapChildren F
    rw [(mapChildren_list F xs t o).2.1]
    rfl
  | vararg xs t =>
    show _ = (Expr.vararg xs t).mapChildren F
    rw [(mapChildren_list F xs t .statements).2.2]
    rfl
  | _ => rfl

/-- A node calls, after redirection, only a declaration `σ` maps something to. -/
theorem callsDecl_retargetNode {e : Expr} {t : DeclId} (h : (e.retargetNode σ).callsDecl t = true) :
    ∃ t₀, t = σ t₀ := by
  cases e with
  | call tgt d x ta as cc ty =>
    cases tgt with
    | decl t₀ =>
      simp only [retargetNode, callsDecl, call?, beq_iff_eq, CallTarget.decl.injEq] at h
      exact ⟨t₀, h.symm⟩
    | _ => simp [retargetNode, callsDecl, call?] at h
  | _ => simp [retargetNode, callsDecl, call?] at h

theorem children_retarget (e : Expr) : (e.retarget σ).children = e.children.map (retarget σ) := by
  rw [retarget_eq, children_retargetNode, children_mapChildren]

/-- Redirecting keeps every nested declaration. -/
theorem nestedFns_retarget (e : Expr) : (e.retarget σ).nestedFns = e.nestedFns := by
  rw [nestedFns_eq, nestedFns_eq e, children_retarget, retarget_eq, fnDecl?_retargetNode,
    fnDecl?_mapChildren, List.flatMap_map]
  congr 1
  exact List.flatMap_congr fun c hc => nestedFns_retarget c
termination_by sizeOf e
decreasing_by exact sizeOf_lt_of_mem_children hc

/-- After redirection every call of a declaration calls one that `σ` maps something to. -/
theorem retarget_calls (e : Expr) :
    (e.retarget σ).All fun n => ∀ t, n.callsDecl t = true → ∃ t₀, t = σ t₀ := by
  refine all_iff.2 ⟨fun t ht => ?_, fun c hc => ?_⟩
  · rw [retarget_eq] at ht
    exact callsDecl_retargetNode σ ht
  · rw [children_retarget] at hc
    obtain ⟨c₀, hc₀, rfl⟩ := List.mem_map.1 hc
    exact retarget_calls c₀
termination_by sizeOf e
decreasing_by exact sizeOf_lt_of_mem_children hc₀

/-- Redirecting twice through a map that fixes what it maps to redirects once. -/
theorem retarget_retarget (hσ : ∀ t, σ (σ t) = σ t) (e : Expr) :
    (e.retarget σ).retarget σ = e.retarget σ := by
  have hnode : ∀ y : Expr, (y.retargetNode σ).retargetNode σ = y.retargetNode σ := by
    intro y
    cases y with
    | call tgt => cases tgt <;> simp [retargetNode, hσ]
    | _ => rfl
  rw [retarget_eq (e := e.retarget σ), retarget_eq, ← retargetNode_mapChildren,
    mapChildren_mapChildren, hnode]
  congr 1
  exact mapChildren_congr _ _ fun c hc => retarget_retarget hσ c
termination_by sizeOf e
decreasing_by exact sizeOf_lt_of_mem_children hc

end Retarget

end Expr

namespace Decl

/-- A declaration with its overrides mapped by `σ` and every call of a declaration in its
defaults and body redirected through `σ`. -/
def retarget (σ : DeclId → DeclId) (x : Decl) : Decl :=
  { x with
    params := x.params.map fun p => { p with default := p.default.map (Expr.retarget σ) }
    body := x.body.map (Expr.retarget σ)
    overrides := x.overrides.map σ }

/-- A declaration with what redirecting rewrites forgotten: its parameters' defaults, its body
and its overrides. -/
def bare (x : Decl) : Decl :=
  { x with params := x.params.map Param.undefaulted, body := none, overrides := [] }

section Retarget

variable (σ : DeclId → DeclId) (x : Decl)

@[simp] theorem bare_retarget : (x.retarget σ).bare = x.bare := by
  simp [bare, retarget, Param.undefaulted, Function.comp_def]

@[simp] theorem isDecoy_retarget : (x.retarget σ).isDecoy = x.isDecoy := rfl

theorem owned_retarget : (x.retarget σ).owned = x.owned.map (Expr.retarget σ) := by
  cases hb : x.body <;> simp [owned, retarget, hb, List.map_filterMap, List.filterMap_map]

theorem nestedFns_retarget : (x.retarget σ).nestedFns = x.nestedFns := by
  rw [nestedFns_eq_owned, nestedFns_eq_owned, owned_retarget, List.flatMap_map]
  exact List.flatMap_congr fun e _ => Expr.nestedFns_retarget σ e

/-- After redirection every call of a declaration in the defaults and body calls one that `σ`
maps something to. -/
theorem retarget_calls {e : Expr} (he : e ∈ (x.retarget σ).nodes) {t : DeclId}
    (ht : e.callsDecl t = true) : ∃ t₀, t = σ t₀ := by
  obtain ⟨o, ho, he⟩ := List.mem_flatMap.1 he
  rw [owned_retarget] at ho
  obtain ⟨o₀, -, rfl⟩ := List.mem_map.1 ho
  exact Expr.retarget_calls σ o₀ e he t ht

theorem retarget_retarget (hσ : ∀ t, σ (σ t) = σ t) :
    (x.retarget σ).retarget σ = x.retarget σ := by
  simp [retarget, Function.comp_def, Expr.retarget_retarget σ hσ, hσ]

end Retarget

end Decl

namespace Module

/-- Taking out the defaults and body of a declaration whose overrides were redirected, and putting
them back redirected, rewrites the declaration to its `Decl.retarget σ`. -/
theorem putExprs_takeExprs_retarget (σ : DeclId → DeclId) (M₀ : Module) (d : DeclId)
    {m₂ : Module} {exprs : DeclExprs}
    (h : (M₀.modifyDecl d fun x => { x with overrides := (M₀.decl d).overrides.map σ }).takeExprs d
      = (m₂, exprs)) :
    m₂.putExprs d ⟨exprs.defaults.map (·.map (Expr.retarget σ)), exprs.body.map (Expr.retarget σ)⟩
      = M₀.modifyDecl d (Decl.retarget σ) := by
  have h₁ := congrArg Prod.fst h
  have h₂ := congrArg Prod.snd h
  rw [takeExprs_fst] at h₁
  rw [takeExprs_snd] at h₂
  subst h₁ h₂
  refine eq_of_decl_eq rfl (by simp [putExprs]) fun y => ?_
  by_cases hy : d = y ∧ y < M₀.decls.size
  · obtain ⟨rfl, hd⟩ := hy
    simp [putExprs, decl_modifyDecl, decl_setDecl, hd, Decl.retarget, Function.comp_def,
      putDefaults_map_cleared]
  · simp only [putExprs, decl_modifyDecl, decl_setDecl, decls_size_modifyDecl, decls_size_setDecl,
      if_neg hy]

/-- Taking out the defaults and body forgets only what redirecting rewrites. -/
theorem agrees_takeExprs (M₁ : Module) (d : DeclId) : M₁.Agrees Decl.bare (M₁.takeExprs d).1 := by
  refine ⟨by simp [takeExprs_fst], fun y => ?_⟩
  rw [takeExprs_fst, decl_setDecl]
  split
  · rename_i hy
    obtain ⟨rfl, -⟩ := hy
    simp [Decl.bare, Param.undefaulted, Function.comp_def]
  · rfl

/-- The container of a declaration follows parents only. -/
theorem containerOfAux_congr {M M' : Module} (h : ∀ d, (M'.decl d).parent = (M.decl d).parent)
    (fuel : Nat) : ∀ d, M'.containerOfAux fuel d = M.containerOfAux fuel d := by
  induction fuel with
  | zero => intro d; rfl
  | succ fuel ih =>
    intro d
    rw [containerOfAux, containerOfAux, h d]
    cases (M.decl d).parent with
    | decl outer => exact ih outer
    | _ => rfl

theorem containerOf_congr {forget : Decl → Decl} {M M' : Module} (h : M.Agrees forget M')
    (hparent : ∀ x, (forget x).parent = x.parent) (d : DeclId) :
    M'.containerOf d = M.containerOf d := by
  rw [containerOf, containerOf, h.size_eq]
  exact containerOfAux_congr (h.congr hparent) _ d

/-- The declarations reached below a declaration follow the nesting only. -/
theorem subtreeDecls_congr {M M' : Module} (h : ∀ d, (M'.decl d).nestedFns = (M.decl d).nestedFns)
    (fuel : Nat) : ∀ d, M'.subtreeDecls fuel d = M.subtreeDecls fuel d := by
  induction fuel with
  | zero => intro d; rfl
  | succ fuel ih =>
    intro d
    rw [subtreeDecls, subtreeDecls, nestedDecls, nestedDecls, h d, funext ih]

theorem reachableDecls_congr {M M' : Module} (hfiles : M'.files = M.files)
    (hcont : M'.containers = M.containers) (hsize : M'.decls.size = M.decls.size)
    (h : ∀ d, (M'.decl d).nestedFns = (M.decl d).nestedFns) :
    M'.reachableDecls = M.reachableDecls := by
  have horder : M'.containersInOrder = M.containersInOrder :=
    containersInOrder_congr hfiles (by rw [hcont]) fun c => by rw [container, container, hcont]
  rw [reachableDecls, reachableDecls, horder, hsize, funext (subtreeDecls_congr h _)]
  simp only [container, hcont]

/-- Redirecting the declarations `ds` along `σ` in turn, each unless it is a decoy. -/
def retargetDecls (M : Module) (σ : DeclId → DeclId) (ds : List DeclId) : Module :=
  ds.foldl (fun M' d => if (M'.decl d).isDecoy then M' else M'.modifyDecl d (Decl.retarget σ)) M

section RetargetDecls

variable (σ : DeclId → DeclId)

/-- Redirecting changes the declarations only. -/
theorem retargetDecls_rest (ds : List DeclId) : ∀ M : Module,
    { M.retargetDecls σ ds with decls := #[] } = { M with decls := #[] } ∧
      (M.retargetDecls σ ds).decls.size = M.decls.size := by
  induction ds with
  | nil => intro M; exact ⟨rfl, rfl⟩
  | cons d ds ih =>
    intro M
    rw [retargetDecls, List.foldl_cons, ← retargetDecls]
    obtain ⟨hrest, hsize⟩ := ih (if (M.decl d).isDecoy then M else M.modifyDecl d (Decl.retarget σ))
    rw [hrest, hsize]
    split <;> simp [modifyDecl]

/-- A declaration is redirected once it is listed and is no decoy; redirecting it again
changes nothing when `σ` fixes what it gives. -/
theorem decl_retargetDecls (hσ : ∀ t, σ (σ t) = σ t) (ds : List DeclId) :
    ∀ (M : Module) (y : DeclId), (M.retargetDecls σ ds).decl y =
      if y ∈ ds ∧ y < M.decls.size ∧ (M.decl y).isDecoy = false then (M.decl y).retarget σ
      else M.decl y := by
  induction ds with
  | nil => intro M y; simp [retargetDecls]
  | cons d ds ih =>
    intro M y
    rw [retargetDecls, List.foldl_cons, ← retargetDecls, ih]
    -- one step redirects `d` unless it is a decoy, and keeps every decoy a decoy
    have hstep : ∀ z, (if (M.decl d).isDecoy then M else M.modifyDecl d (Decl.retarget σ)).decl z =
        if d = z ∧ z < M.decls.size ∧ (M.decl z).isDecoy = false then (M.decl z).retarget σ
        else M.decl z := by
      intro z
      split
      · rename_i hd
        rw [if_neg]
        rintro ⟨rfl, -, h⟩
        rw [hd] at h
        cases h
      · rename_i hd
        rw [decl_modifyDecl]
        by_cases hdz : d = z
        · subst hdz
          simp [hd]
        · simp [hdz]
    have hsize : (if (M.decl d).isDecoy then M else M.modifyDecl d (Decl.retarget σ)).decls.size =
        M.decls.size := by
      split <;> simp
    rw [hstep, hsize]
    by_cases hdy : d = y
    · subst hdy
      by_cases hd : d < M.decls.size <;> by_cases hdd : (M.decl d).isDecoy = false <;>
        simp [hd, hdd, Decl.retarget_retarget σ _ hσ]
    · simp [hdy, Ne.symm hdy]

end RetargetDecls

end Module

namespace StepSemantics.Safe

variable {m : Type → Type} [Monad m] {σ ε : Type} {S : StepSemantics m σ ε}
  {Bad : ε → Prop} {G : Growth σ} {I P : σ → Prop}

/-- Rebuilding a node from its children, each of which its step replaces by `F` of it: the node
becomes `e.mapChildren F`. -/
theorem mapChildrenM_eq [LawfulMonad m] {f : Expr → m Expr} {F : Expr → Expr} (e : Expr)
    (hP : G.Persists P) (hf : ∀ c ∈ e.children, S.Safe Bad G I P (f c) fun c' _ => c' = F c) :
    S.Safe Bad G I P (e.mapChildrenM f Pure.pure) fun e' _ => e' = e.mapChildren F := by
  have hstable : ∀ c : Expr, G.Stable fun (c' : Expr) (_ : σ) => c' = F c :=
    fun _ _ _ _ _ h => h
  have hopt : ∀ o : Option Expr, (∀ c ∈ o, c ∈ e.children) →
      S.Safe Bad G I P (o.mapM f) fun o' _ => o' = o.map F :=
    fun o ho => option_eq o fun c hc => hf c (ho c hc)
  have hlist : ∀ xs : List Expr, (∀ c ∈ xs, c ∈ e.children) →
      S.Safe Bad G I P (xs.mapM f) fun ys _ => ys = xs.map F :=
    fun xs hxs => mapM_eq hP xs fun c hc => hf c (hxs c hc)
  cases e with
  | const | get | maskBit => exact Safe.pure _ fun _ _ => rfl
  | fn d t =>
    exact Safe.bind (Safe.pure (Q := fun d' _ => d' = d) d fun _ _ => rfl) fun d' =>
      Safe.of_pure_pre fun h => Safe.pure _ fun _ _ => by rw [h]; rfl
  | set v x t | letVal v x t | ret v x t | inlineNew x t =>
    exact Safe.bind (hf x (by simp [Expr.children])) fun x' =>
      Safe.of_pure_pre fun h => Safe.pure _ fun _ _ => by rw [h]; rfl
  | block xs t =>
    rw [(Expr.mapChildrenM_list f Pure.pure xs t .statements).1,
      (Expr.mapChildren_list F xs t .statements).1]
    exact Safe.bind (hlist xs fun c hc => by simpa [Expr.children] using hc) fun ys =>
      Safe.of_pure_pre fun h => Safe.pure _ fun _ _ => by rw [h]
  | composite o xs t =>
    rw [(Expr.mapChildrenM_list f Pure.pure xs t o).2.1, (Expr.mapChildren_list F xs t o).2.1]
    exact Safe.bind (hlist xs fun c hc => by simpa [Expr.children] using hc) fun ys =>
      Safe.of_pure_pre fun h => Safe.pure _ fun _ _ => by rw [h]
  | vararg xs t =>
    rw [(Expr.mapChildrenM_list f Pure.pure xs t .statements).2.2,
      (Expr.mapChildren_list F xs t .statements).2.2]
    exact Safe.bind (hlist xs fun c hc => by simpa [Expr.children] using hc) fun ys =>
      Safe.of_pure_pre fun h => Safe.pure _ fun _ _ => by rw [h]
  | ite c a b t =>
    rw [Expr.mapChildrenM_ite, Expr.mapChildren_ite]
    refine Safe.bind_persist (hf c (by simp [Expr.children])) (hstable c) hP fun c' => ?_
    refine Safe.bind_persist (hf a (by simp [Expr.children])) (hstable a) hP fun a' => ?_
    refine Safe.bind_persist (hopt b fun y hy => by simp [Expr.children, Option.mem_def.1 hy])
      (fun _ _ _ _ h => h) hP fun b' => Safe.pure _ fun _ _ hb ha hc => ?_
    rw [hb, ha, hc]
  | call tgt d x ta as cc t =>
    rw [Expr.mapChildrenM_call, Expr.mapChildren_call]
    have hd : ∀ y ∈ d, y ∈ (Expr.call tgt d x ta as cc t).children := by
      intro y hy; simp [Expr.children, Option.mem_def.1 hy]
    have hx : ∀ y ∈ x, y ∈ (Expr.call tgt d x ta as cc t).children := by
      intro y hy; simp [Expr.children, Option.mem_def.1 hy]
    have ha : ∀ o ∈ as, ∀ y ∈ o, y ∈ (Expr.call tgt d x ta as cc t).children := by
      intro o ho y hy
      simp only [Expr.children, List.mem_append, List.mem_filterMap, id]
      exact .inr ⟨o, ho, hy⟩
    refine Safe.bind_persist (hopt d hd) (fun _ _ _ _ h => h) hP fun d' => ?_
    refine Safe.bind_persist (hopt x hx) (fun _ _ _ _ h => h) hP fun x' => ?_
    refine Safe.bind_persist (mapM_eq hP as fun o ho => hopt o (ha o ho)) (fun _ _ _ _ h => h) hP
      fun as' => Safe.pure _ fun _ _ has hx' hd' => ?_
    rw [hd', hx', has]

end StepSemantics.Safe

namespace Decoy

open StepSemantics

/-- An implementation found among the members of a decoy's container is found there in any
module that differs only in overrides, defaults and bodies. -/
theorem FoundLocally.of_agrees {M M' : Module} (h : M.Agrees Decl.bare M')
    (hc : M'.containers = M.containers) {d i : DeclId} (hf : FoundLocally M d i) :
    FoundLocally M' d i := by
  obtain ⟨target, parts, c, hdecoy, hcont, hfind⟩ := hf
  have himpl : ∀ y, (M'.decl y).decoyImplName? = (M.decl y).decoyImplName? :=
    h.congr (f := Decl.decoyImplName?) fun _ => rfl
  refine ⟨target, parts, c, ?_, ?_, ?_⟩
  · rw [h.congr (f := Decl.decoy?) (fun _ => rfl) d]
    exact hdecoy
  · rw [Module.containerOf_congr h (fun _ => rfl) d]
    exact hcont
  · rw [show M'.container c = M.container c by rw [Module.container, Module.container, hc]]
    simpa only [himpl] using hfind

/-- Steps that leave the module as it is: looking up an implementation and redirecting the
calls of an expression change only the cache and the count. -/
def keepsModule : Growth RetargetState :=
  ⟨fun s s' => s'.module = s.module, fun _ => rfl, fun h h' => h'.trans h⟩

/-- `σ` gives the implementations of the decoys of `M`: each decoy goes to the implementation
found among the members of its container, every other declaration stays, and what `σ` gives is
never a decoy. -/
structure Redirection (M : Module) (σ : DeclId → DeclId) : Prop where
  fixes : ∀ d, (M.decl d).isDecoy = false → σ d = d
  found : ∀ d, (M.decl d).isDecoy = true → FoundLocally M d (σ d)
  lands : ∀ d, (M.decl (σ d)).isDecoy = false

namespace Redirection

variable {M : Module} {σ : DeclId → DeclId}

theorem idem (hσ : Redirection M σ) (d : DeclId) : σ (σ d) = σ d :=
  hσ.fixes _ (hσ.lands d)

/-- A declaration redirected along `σ` overrides no decoy and calls none. -/
theorem no_decoy_edge (hσ : Redirection M σ) (x : Decl) :
    (∀ o ∈ (x.retarget σ).overrides, (M.decl o).isDecoy = false) ∧
      ∀ e ∈ (x.retarget σ).nodes, ∀ z, e.callsDecl z = true → (M.decl z).isDecoy = false := by
  refine ⟨fun o ho => ?_, fun e he z hz => ?_⟩
  · obtain ⟨o₀, -, rfl⟩ := List.mem_map.1 ho
    exact hσ.lands o₀
  · obtain ⟨z₀, rfl⟩ := x.retarget_calls σ he hz
    exact hσ.lands z₀

end Redirection

/-- A state of redirecting `M` along `σ`: its module is `M` but for overrides, defaults and
bodies, its containers are those of `M`, and every implementation it has cached is the one `σ`
gives. -/
structure Redirects (M : Module) (σ : DeclId → DeclId) (s : RetargetState) : Prop where
  agrees : M.Agrees Decl.bare s.module
  containers_eq : s.module.containers = M.containers
  cache : ∀ p ∈ s.cache, p.2 = σ p.1

namespace Redirects

variable {M : Module} {σ : DeclId → DeclId} {s : RetargetState}

theorem start (M : Module) (σ : DeclId → DeclId) : Redirects M σ { module := M } :=
  ⟨Module.Agrees.refl M, rfl, fun _ h => nomatch h⟩

theorem isDecoy_eq (hs : Redirects M σ s) (d : DeclId) :
    (s.module.decl d).isDecoy = (M.decl d).isDecoy :=
  hs.agrees.congr (f := Decl.isDecoy) (fun _ => rfl) d

/-- A new module that differs from the state's only in overrides, defaults and bodies. -/
theorem withModule (hs : Redirects M σ s) {M' : Module} (h : s.module.Agrees Decl.bare M')
    (hc : M'.containers = s.module.containers) : Redirects M σ { s with module := M' } :=
  ⟨hs.agrees.trans h, hc.trans hs.containers_eq, hs.cache⟩

end Redirects

section Steps

variable {ctx : LowerContext} {M : Module} {σ : DeclId → DeclId}

/-- Retargeting steps run from a state of redirecting `M` along `σ`: they never fail. -/
abbrev Redirecting {α : Type} (ctx : LowerContext) (M : Module) (σ : DeclId → DeclId)
    (G : Growth RetargetState) (P : RetargetState → Prop) (x : RetargetM α)
    (Q : α → RetargetState → Prop) : Prop :=
  (retargetSem ctx).Safe (fun _ => True) G (Redirects M σ) P x Q

theorem redirecting_get {G : Growth RetargetState} {P : RetargetState → Prop} :
    Redirecting ctx M σ G P get fun a s => (Redirects M σ a ∧ P a) ∧ P s :=
  Safe.of_run fun s hs h => ⟨s, s, rfl, hs, G.refl s, ⟨hs, h⟩, h⟩

/-- A change of the state alone, from a fixed state. -/
theorem redirecting_modify {G : Growth RetargetState} {s₀ : RetargetState}
    {f : RetargetState → RetargetState} (hs : Redirects M σ s₀ → Redirects M σ (f s₀))
    (hG : G.rel s₀ (f s₀)) : Redirecting ctx M σ G (· = s₀) (modify f) fun _ s => s = f s₀ :=
  Safe.of_run fun s hI h => by
    subst h
    exact ⟨(), f s, rfl, hs hI, hG, rfl⟩

/-- A change of the module to one that differs only in overrides, defaults and bodies. -/
theorem redirecting_setModule {M₁ : Module} (M₂ : Module) {f : RetargetState → RetargetState}
    (hf : ∀ s : RetargetState, s.module = M₁ → f s = { s with module := M₂ })
    (hagree : M₁.Agrees Decl.bare M₂) (hc : M₂.containers = M₁.containers) :
    Redirecting ctx M σ (Growth.any _) (fun s => s.module = M₁) (modify f)
      fun _ s => s.module = M₂ :=
  Safe.of_run fun s hs h => by
    refine ⟨(), f s, rfl, ?_, trivial, by rw [hf s h]⟩
    rw [hf s h]
    subst h
    exact hs.withModule hagree hc

/-- A step that leaves the module as it is, run where the module is `M₁`. -/
theorem Redirecting.keeping {α : Type} {x : RetargetM α} {Q : α → RetargetState → Prop}
    (hx : Redirecting ctx M σ keepsModule (fun _ => True) x Q) (M₁ : Module) :
    Redirecting ctx M σ (Growth.any _) (fun s => s.module = M₁) x
      fun a s => Q a s ∧ s.module = M₁ :=
  ((hx.frame (R := fun s => s.module = M₁) fun _ _ hg h => hg.trans h).mono
    (fun _ h => ⟨trivial, h⟩) fun _ _ h => h).any_growth

/-- Looking up an implementation gives what `σ` gives, and leaves the module as it is. -/
theorem redirecting_implementationOf (hσ : Redirection M σ) (d : DeclId) :
    Redirecting ctx M σ keepsModule (fun _ => True) (implementationOf d) fun i _ => i = σ d := by
  -- counting a replacement changes only the count
  have hcount : ∀ s₀ : RetargetState, Redirecting ctx M σ keepsModule (· = s₀)
      (modify fun s : RetargetState => { s with substituted := s.substituted + 1 })
      fun _ _ => True := fun _ =>
    (redirecting_modify (fun h => ⟨h.agrees, h.containers_eq, h.cache⟩) rfl).mono
      (fun _ h => h) fun _ _ _ => trivial
  unfold implementationOf
  refine Safe.bind redirecting_get fun s₀ => Safe.of_pure_and fun ⟨hs₀, _⟩ => ?_
  have hdecoy : (s₀.module.decl d).isDecoy = (M.decl d).isDecoy := hs₀.isDecoy_eq d
  split
  · rename_i hnd
    exact Safe.pure _ fun _ _ => (hσ.fixes d (by simpa [hdecoy] using hnd)).symm
  · rename_i hd
    have hd : (M.decl d).isDecoy = true := by simpa [hdecoy] using hd
    have hfound : implementationFor ctx s₀.module d = .ok (σ d) :=
      implementationFor_of_foundLocally ctx
        ((hσ.found d hd).of_agrees hs₀.agrees hs₀.containers_eq)
    -- either way the replacement is counted and the implementation returned
    have htail : ∀ i, i = σ d → Redirecting ctx M σ keepsModule (fun _ => True)
        (do let impl ← pure i
            modify fun s : RetargetState => { s with substituted := s.substituted + 1 }
            pure impl) fun i _ => i = σ d := by
      intro i hi
      subst hi
      refine Safe.bind (Safe.pure (Q := fun i _ => i = σ d) _ fun _ _ => rfl) fun i => ?_
      refine Safe.of_pure_pre fun hi => ?_
      subst hi
      exact Safe.of_start fun s _ _ => Safe.bind (hcount s) fun _ => Safe.pure _ fun _ _ => rfl
    dsimp only
    split
    · -- a cached implementation is the one `σ` gives
      rename_i i hi
      obtain ⟨l₁, l₂, hl, -⟩ := List.lookup_eq_some_iff.1 hi
      exact htail i (hs₀.cache (d, i) (hl ▸ List.mem_append_right _ List.mem_cons_self))
    · -- otherwise it is looked up, found among the members, and cached
      refine Safe.bind (Q := fun c _ => c = ctx)
        (Safe.of_run fun s hs _ => ⟨ctx, s, rfl, hs, rfl, rfl⟩) fun c => ?_
      refine Safe.of_pure_pre fun hc => ?_
      subst hc
      rw [hfound]
      refine Safe.bind (Q := fun i _ => i = σ d) (Safe.pure _ fun _ _ => rfl) fun i => ?_
      refine Safe.of_pure_pre fun hi => ?_
      subst hi
      refine Safe.bind (Safe.of_start fun s _ _ => (redirecting_modify
        (fun h => ⟨h.agrees, h.containers_eq, fun p hp => ?_⟩) rfl).mono (fun _ h => h)
          fun _ _ _ => trivial) fun _ => htail _ rfl
      rcases List.mem_cons.1 hp with rfl | hp
      · rfl
      · exact h.cache p hp

/-- Redirecting the calls of an expression gives `e.retarget σ` and leaves the module as it
is. -/
theorem redirecting_retargetExpr (hσ : Redirection M σ) (e : Expr) :
    Redirecting ctx M σ keepsModule (fun _ => True) (retargetExpr e)
      fun e' _ => e' = e.retarget σ := by
  -- the children first, each by this theorem on a smaller expression
  have hchildren : Redirecting ctx M σ keepsModule (fun _ => True)
      (e.mapChildrenM retargetExpr pure) fun e' _ => e' = e.mapChildren (Expr.retarget σ) :=
    Safe.mapChildrenM_eq e (Growth.persists_const _ True) fun c hc =>
      redirecting_retargetExpr hσ c
  rw [retargetExpr]
  refine Safe.bind hchildren fun e' => Safe.of_pure_pre fun he' => ?_
  subst he'
  rw [Expr.retarget_eq]
  -- then the node's own call, if it calls a declaration
  generalize e.mapChildren (Expr.retarget σ) = y
  cases y with
  | call tgt d x ta args cc ty =>
    cases tgt with
    | decl t =>
      refine Safe.bind (redirecting_implementationOf hσ t) fun i => Safe.of_pure_pre fun hi => ?_
      exact Safe.pure _ fun _ _ => by rw [hi]; rfl
    | _ => exact Safe.pure _ fun _ _ => rfl
  | _ => exact Safe.pure _ fun _ _ => rfl
termination_by sizeOf e
decreasing_by exact Expr.sizeOf_lt_of_mem_children hc

/-- Redirecting one declaration rewrites it to its `Decl.retarget σ`, and nothing else. -/
theorem redirecting_retargetDecl (hσ : Redirection M σ) (d : DeclId) (M₀ : Module) :
    Redirecting ctx M σ (Growth.any _) (fun s => s.module = M₀) (retargetDecl d)
      fun _ s => s.module = M₀.modifyDecl d (Decl.retarget σ) := by
  unfold retargetDecl
  refine Safe.bind redirecting_get fun s => Safe.of_pure_and fun ⟨_, hs⟩ => ?_
  rw [hs]
  -- the overrides first, each looked up
  have hover : Redirecting ctx M σ keepsModule (fun _ => True)
      ((M₀.decl d).overrides.mapM implementationOf) fun os _ => os = (M₀.decl d).overrides.map σ :=
    Safe.mapM_eq (Growth.persists_const _ True) _ fun o _ => redirecting_implementationOf hσ o
  refine Safe.bind (hover.keeping M₀) fun os => Safe.of_pure_and fun hos => ?_
  subst hos
  refine Safe.bind (redirecting_setModule _ (fun _ h => by rw [h])
    (Module.Agrees.modifyDecl (f := fun x => { x with overrides := (M₀.decl d).overrides.map σ })
      (fun _ => rfl) d) rfl) fun _ => ?_
  -- then the defaults and the body, taken out, redirected, and put back
  refine Safe.bind redirecting_get fun s => Safe.of_pure_and fun ⟨_, hs⟩ => ?_
  rw [hs]
  generalize hte : (M₀.modifyDecl d fun x =>
    { x with overrides := (M₀.decl d).overrides.map σ }).takeExprs d = te
  obtain ⟨m₂, exprs⟩ := te
  have hagree := hte ▸ Module.agrees_takeExprs _ d
  have hcont : m₂.containers = M₀.containers := by
    rw [show m₂ = (Module.takeExprs (M₀.modifyDecl d fun x =>
      { x with overrides := (M₀.decl d).overrides.map σ }) d).1 by rw [hte]]
    rfl
  dsimp only
  refine Safe.bind (redirecting_setModule m₂ (fun _ _ => rfl) hagree hcont) fun _ => ?_
  have hdefaults : Redirecting ctx M σ keepsModule (fun _ => True)
      (exprs.defaults.mapM fun e => e.mapM retargetExpr)
      fun ds _ => ds = exprs.defaults.map (·.map (Expr.retarget σ)) :=
    Safe.mapM_eq (Growth.persists_const _ True) _ fun o _ =>
      Safe.option_eq o fun e _ => redirecting_retargetExpr hσ e
  refine Safe.bind (hdefaults.keeping m₂) fun ds => Safe.of_pure_and fun hds => ?_
  subst hds
  refine Safe.bind (Redirecting.keeping
    (Safe.option_eq exprs.body fun e _ => redirecting_retargetExpr hσ e) m₂) fun b =>
      Safe.of_pure_and fun hb => ?_
  subst hb
  refine (redirecting_setModule _ (fun _ h => by rw [h]; rfl)
    (Module.Agrees.modifyDecl (fun x => ?_) d) rfl).mono (fun _ h => h)
    fun _ _ h => h.trans (Module.putExprs_takeExprs_retarget σ M₀ d hte)
  simp [Decl.bare, map_undefaulted_putDefaults]

/-- Visiting declarations in turn, each unless it is a decoy, redirects them in turn. -/
theorem redirecting_forM (hσ : Redirection M σ) (ds : List DeclId) : ∀ M₀ : Module,
    Redirecting ctx M σ (Growth.any _) (fun s => s.module = M₀)
      (ds.forM fun d => do if !((← get).module.decl d).isDecoy then retargetDecl d)
      fun _ s => s.module = M₀.retargetDecls σ ds := by
  induction ds with
  | nil => intro M₀; exact Safe.pure _ fun _ h => h
  | cons d ds ih =>
    intro M₀
    show Redirecting ctx M σ _ _ (_ >>= fun _ => ds.forM _) _
    refine Safe.bind (Q := fun _ s => s.module =
      if (M₀.decl d).isDecoy then M₀ else M₀.modifyDecl d (Decl.retarget σ)) ?_ fun _ => ih _
    refine Safe.bind redirecting_get fun s => Safe.of_pure_and fun ⟨_, hs⟩ => ?_
    rw [hs]
    cases hd : (M₀.decl d).isDecoy with
    | false => exact redirecting_retargetDecl hσ d M₀
    | true => exact Safe.pure _ fun _ h => h

/-- Redirecting a module along `σ` never fails: it redirects every reachable declaration that
is not a decoy, in turn. -/
theorem retargetModule_eq (ctx : LowerContext) (hσ : Redirection M σ) :
    ∃ n, retargetModule ctx M = .ok (M.retargetDecls σ M.reachableDecls, n) := by
  obtain ⟨_, s, hrun, -, -, hmodule⟩ :=
    (@redirecting_forM ctx M σ hσ M.reachableDecls M).exists_ok (Redirects.start M σ) rfl
  refine ⟨s.substituted, ?_⟩
  dsimp only [retargetModule, ReaderT.run, StateT.run]
  simp only [retargetSem] at hrun
  rw [hrun, ← hmodule]
  rfl

/-- Redirecting a module along `σ` never fails; every reachable declaration that is not a decoy
ends as its `Decl.retarget σ`, every other declaration as it was, and the same declarations
stay reachable. -/
theorem retargetModule_spec (ctx : LowerContext) (hσ : Redirection M σ) :
    ∃ M' k, retargetModule ctx M = .ok (M', k) ∧ M'.reachableDecls = M.reachableDecls ∧
      ∀ y, M'.decl y = if y ∈ M.reachableDecls ∧ (M.decl y).isDecoy = false
        then (M.decl y).retarget σ else M.decl y := by
  obtain ⟨k, hrun⟩ := retargetModule_eq ctx hσ
  refine ⟨_, k, hrun, ?_, fun y => ?_⟩
  · obtain ⟨hrest, hsize⟩ := Module.retargetDecls_rest σ M.reachableDecls M
    refine Module.reachableDecls_congr (congrArg Module.files hrest :)
      (congrArg Module.containers hrest :) hsize fun y => ?_
    rw [Module.decl_retargetDecls σ hσ.idem]
    split
    · exact Decl.nestedFns_retarget σ _
    · rfl
  · rw [Module.decl_retargetDecls σ hσ.idem]
    -- past the arena both sides read the default declaration, which redirecting keeps
    by_cases hy : y < M.decls.size
    · simp [hy]
    · have hdef : M.decl y = default := Module.decl_of_size_le (Nat.le_of_not_lt hy)
      simp only [hy, false_and, and_false, if_false, hdef]
      split <;> rfl

end Steps

/-! ## Redirecting what the split left -/

/-- Where the split sends an edge: a stub to its implementation, anything else to itself. -/
def redirect (t : List Split) (d : DeclId) : DeclId :=
  ((t.find? fun x => x.stub == d).map (·.impl)).getD d

theorem redirect_of_not_mem {t : List Split} {d : DeclId} (h : d ∉ t.map (·.stub)) :
    redirect t d = d := by
  have hnone : t.find? (fun x => x.stub == d) = none :=
    List.find?_eq_none.2 fun x hx hxd => h (List.mem_map.2 ⟨x, hx, by simpa using hxd⟩)
  simp [redirect, hnone]

theorem redirect_of_mem {t : List Split} {d : DeclId} (h : d ∈ t.map (·.stub)) :
    ∃ x ∈ t, x.stub = d ∧ redirect t d = x.impl := by
  obtain ⟨x, hx, hxd⟩ := List.mem_map.1 h
  have hsome : (t.find? fun x => x.stub == d).isSome := List.find?_isSome.2 ⟨x, hx, by simp [hxd]⟩
  obtain ⟨y, hy⟩ := Option.isSome_iff_exists.1 hsome
  exact ⟨y, List.mem_of_find?_eq_some hy, by simpa using List.find?_some hy, by simp [redirect, hy]⟩

namespace Decoys

variable {m m' : Module} {t : List Split}

theorem stub_lt (harena : m.InArena) (hD : Decoys m m' t) {x : Split} (hx : x ∈ t) :
    x.stub < m.decls.size :=
  harena.members_lt _ _ (hD.stub_member x hx)

/-- An implementation lies past `m`'s arena, and so is no stub. -/
theorem impl_not_stub (harena : m.InArena) (hD : Decoys m m' t) {x : Split} (hx : x ∈ t) :
    x.impl ∉ t.map (·.stub) := by
  intro h
  obtain ⟨y, hy, hyx⟩ := List.mem_map.1 h
  have hlt : y.stub < m.decls.size := hD.stub_lt harena hy
  have hge : m.decls.size ≤ x.impl := hD.impl_ge x hx
  rw [show y.stub = x.impl from hyx] at hlt
  exact absurd hge (Nat.not_le.2 hlt)

/-- Each stub is sent to its own implementation. -/
theorem redirect_stub (hD : Decoys m m' t) {x : Split} (hx : x ∈ t) : redirect t x.stub = x.impl := by
  obtain ⟨y, hy, hyx, hr⟩ := redirect_of_mem (List.mem_map_of_mem hx)
  rw [hr, List.inj_on_of_nodup_map hD.stubs_nodup hy hx hyx]

theorem isDecoy_eq_false_iff (hD : Decoys m m' t) (y : DeclId) :
    (m'.decl y).isDecoy = false ↔ y ∉ t.map (·.stub) := by
  rw [← hD.decoy_iff y, Bool.not_eq_true]

/-- Sending each stub to its implementation redirects the decoys of the split module. -/
theorem redirection (hwf : m.WellFormed) (harena : m.InArena) (hD : Decoys m m' t) :
    Redirection m' (redirect t) where
  fixes d hd := redirect_of_not_mem ((hD.isDecoy_eq_false_iff d).1 hd)
  found d hd := by
    obtain ⟨x, hx, rfl, hr⟩ := redirect_of_mem ((hD.decoy_iff d).1 hd)
    rw [hr]
    exact hD.foundLocally_stub hwf harena hx
  lands d := by
    rw [hD.isDecoy_eq_false_iff]
    by_cases hd : d ∈ t.map (·.stub)
    · obtain ⟨x, hx, -, hr⟩ := redirect_of_mem hd
      rw [hr]
      exact hD.impl_not_stub harena hx
    · rwa [redirect_of_not_mem hd]

end Decoys

/-! ## Splitting, then redirecting -/

variable {m m' : Module} {n : Nat}

/-- Splitting a well-formed module whose ids stay in the arena, then redirecting its calls. The
split leaves the stubs and implementations that `Decoys` describes, and for each stub the
implementation looked up is its own. Redirecting then never fails: it rewrites every reachable
declaration that is not a stub so that each edge to a stub goes to that stub's implementation
instead, leaves every other declaration as it was, and keeps the same declarations reachable.
So no reachable declaration but a stub overrides or calls a stub. -/
theorem decoys_then_calls_redirected (ctx : LowerContext) (hwf : m.WellFormed)
    (harena : m.InArena) (hover : m.OverridesInArena) (h : splitModule m = .ok (m', n)) :
    ∃ t : List Split, n = t.length ∧ Decoys m m' t ∧
      (∀ x ∈ t, implementationFor ctx m' x.stub = .ok x.impl ∧ redirect t x.stub = x.impl) ∧
      ∃ m'' k, retargetModule ctx m' = .ok (m'', k) ∧ m''.reachableDecls = m'.reachableDecls ∧
        (∀ y, m''.decl y = if y ∈ m'.reachableDecls ∧ y ∉ t.map (·.stub)
          then (m'.decl y).retarget (redirect t) else m'.decl y) ∧
        ∀ y ∈ m''.reachableDecls, y ∉ t.map (·.stub) →
          (∀ o ∈ (m''.decl y).overrides, o ∉ t.map (·.stub)) ∧
          ∀ e ∈ (m''.decl y).nodes, ∀ z, e.callsDecl z = true → z ∉ t.map (·.stub) := by
  obtain ⟨t, hn, hD⟩ := splitModule_decoys hwf harena hover h
  have hσ := hD.redirection hwf harena
  obtain ⟨m'', k, hrun, hreach, hdecl⟩ := retargetModule_spec ctx hσ
  -- the decoys of the split module are its stubs
  have hdecl' : ∀ y, m''.decl y = if y ∈ m'.reachableDecls ∧ y ∉ t.map (·.stub)
      then (m'.decl y).retarget (redirect t) else m'.decl y := by
    intro y
    rw [hdecl y]
    simp only [hD.isDecoy_eq_false_iff]
  refine ⟨t, hn, hD, fun x hx => ⟨hD.implementationFor_stub hwf harena ctx hx,
    hD.redirect_stub hx⟩, m'', k, hrun, hreach, hdecl', fun y hy hyt => ?_⟩
  rw [hreach] at hy
  rw [hdecl' y, if_pos ⟨hy, hyt⟩]
  obtain ⟨hoverrides, hcalls⟩ := hσ.no_decoy_edge (m'.decl y)
  exact ⟨fun o ho => (hD.isDecoy_eq_false_iff o).1 (hoverrides o ho),
    fun e he z hz => (hD.isDecoy_eq_false_iff z).1 (hcalls e he z hz)⟩

/-- A file holding a composable `Icon` and a composable `Toolbar` that calls it, and two classes,
`Base` and `Derived`, each with a composable `Content`, the second overriding the first. -/
def toolbarModule : Module :=
  { name := "app",
    decls := #[
      { name := "Icon", kind := .function, parent := .container 0, annotations := [.composable],
        body := some Expr.unit },
      { name := "Toolbar", kind := .function, parent := .container 0,
        annotations := [.composable], body := some (.call (.decl 0) none none [] [] false Ty.unit) },
      { name := "Content", kind := .function, parent := .container 1,
        annotations := [.composable], body := some Expr.unit },
      { name := "Content", kind := .function, parent := .container 2,
        annotations := [.composable], body := some Expr.unit, overrides := [2] }],
    containers := #[{ kind := .file "", members := [0, 1], classes := [1, 2] },
      { kind := .cls "Base", parent := some 0, members := [2] },
      { kind := .cls "Derived", parent := some 0, members := [3] }],
    files := [0] }

/-- All four members are split, `Icon`'s implementation is named `Icon$composable` and is
appended to the file after the members, `Toolbar`'s implementation calls it, the override of
`Content` goes from implementation to implementation, and two edges are redirected. -/
theorem toolbarModule_calls_redirected :
    toolbarModule.WellFormed ∧ toolbarModule.InArena ∧ toolbarModule.OverridesInArena ∧
      ∃ m' m'', splitModule toolbarModule = .ok (m', 4) ∧ retargetModule {} m' = .ok (m'', 2) ∧
        (m''.container 0).members = [0, 1, 4, 5] ∧ m''.declName 4 = "Icon$composable" ∧
        (m''.decl 5).body.map (Expr.callsDecl 4) = some true ∧ (m''.decl 7).overrides = [6] ∧
        ∃ t : List Split, t.length = 4 ∧ Decoys toolbarModule m' t ∧
          ∀ y ∈ m''.reachableDecls, y ∉ t.map (·.stub) →
            ∀ e ∈ (m''.decl y).nodes, ∀ z, e.callsDecl z = true → z ∉ t.map (·.stub) := by
  have hwf : toolbarModule.WellFormed := Module.wellFormed_of_check (by decide +kernel)
  have harena : toolbarModule.InArena := Module.inArena_of_check (by decide +kernel)
  have hover : toolbarModule.OverridesInArena := Module.overridesInArena_of_check (by decide +kernel)
  have hrun : (match splitModule toolbarModule with
      | .ok (m', n) => n == 4 && match retargetModule {} m' with
        | .ok (m'', k) => k == 2 && (m''.container 0).members == [0, 1, 4, 5] &&
            m''.declName 4 == "Icon$composable" &&
            (m''.decl 5).body.map (Expr.callsDecl 4) == some true &&
            (m''.decl 7).overrides == [6]
        | .error _ => false
      | .error _ => false) = true := by
    decide +kernel
  cases hs : splitModule toolbarModule with
  | error e => rw [hs] at hrun; cases hrun
  | ok r =>
    obtain ⟨m', n⟩ := r
    obtain ⟨t, hn, hD, -, m'', k, hr, -, -, hedges⟩ :=
      decoys_then_calls_redirected {} hwf harena hover hs
    rw [hs] at hrun
    dsimp only at hrun
    rw [hr] at hrun
    simp only [Bool.and_eq_true, beq_iff_eq] at hrun
    obtain ⟨rfl, ⟨⟨⟨⟨rfl, hmembers⟩, hname⟩, hbody⟩, hoverrides⟩⟩ := hrun
    exact ⟨hwf, harena, hover, m', m'', rfl, hr, hmembers, hname, hbody, hoverrides, t, hn.symm,
      hD, fun y hy hyt => (hedges y hy hyt).2⟩

end Decoy

end ComposeLowering
