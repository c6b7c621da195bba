import ComposeLowering.Proofs.Composer.Pass
import ComposeLowering.Proofs.Safe

/-!
# What the walks of a clone leave in place

A walk of the composer pass that finds the lowered form of a declaration may clone others, lower
the calls in their defaults and bodies, and lower the expressions of nested functions in place.
It never touches a declaration it does not clone except to replace its defaults and body by
their lowered forms. `Framed s s'` states this of two states:

* the arena only grows, and a declaration already in it keeps its *core*, everything but its
  parameter defaults and body (`Decl.core`), and holds no declaration it did not hold before;
* containers, files and the table of type parameters stay as they are;
* the records of clones only grow, and every declaration a `fn` node holds was held by one
  before, since a walk only moves `fn` nodes from expressions taken out to their lowered forms;
* recorded clones and declarations recorded as lowered keep having a composer parameter
  (`Registered`), and every `fn` node keeps holding a declaration of the arena
  (`Module.FnsInArena`).

Each step of a walk is framed: allocating a value, counting a call, registering a declaration
with a composer parameter, and allocating a clone. A walk that lowers the expressions of a
declaration is framed as a whole: its expressions are taken out, which empties what it holds,
and put back holding only declarations they held before, since lowering a call adds only
arguments with no `fn` node and lowering a nested function returns its index.

`FrameWalks fuel` states the frame of the four walks at one fuel, with what each returns: the
lowered form of a declaration needs no clone, a clone has a composer parameter, a lowered call
holds no declaration the call did not, and a nested function keeps its index. `frameWalks`
proves it for every fuel by induction, each walk at `fuel + 1` from the walks at `fuel`.
-/

namespace ComposeLowering

/-- A declaration with its parameter defaults and its body forgotten. -/
def Decl.core (d : Decl) : Decl := { d with params := d.params.map Param.undefaulted, body := none }

/-- Whether a declaration has a composer parameter, as a lowered declaration does. -/
def Decl.hasComposer (d : Decl) : Bool := d.params.any (·.origin == .composer)

/-- Whether `lowerDecl` clones a declaration it meets with no clone recorded: a composable
declaration that is neither a lambda passed inline whose parameter type is not composable nor an
`expect` declaration, and has no composer parameter. -/
def Decl.needsClone (d : Decl) : Bool :=
  d.isMarkedComposable &&
    !(d.isLambda && match d.inlineArgument with
      | some t => !t.composable
      | none => false) &&
    !d.isExpect && !d.hasComposer

namespace Decl

theorem hasComposer_core (d : Decl) : d.core.hasComposer = d.hasComposer := by
  simp [hasComposer, core, List.any_map, Function.comp_def, Param.undefaulted]

theorem needsClone_core (d : Decl) : d.core.needsClone = d.needsClone := by
  simp only [needsClone, hasComposer_core]
  rfl

theorem needsClone_eq_false_of_hasComposer {d : Decl} (h : d.hasComposer = true) :
    d.needsClone = false := by
  simp [needsClone, h]

theorem explicitParams_core (d : Decl) :
    d.core.explicitParams.map (·.value) = d.explicitParams.map (·.value) := by
  simp [core, explicitParams, receivers, Param.undefaulted, Function.comp_def]

end Decl

namespace Module

/-- Every declaration that a `fn` node holds lies in the arena. -/
def FnsInArena (m : Module) : Prop := ∀ x y, m.Nests x y → y < m.decls.size

/-- A declaration with a parameter lies in the arena. -/
theorem lt_size_of_hasComposer {m : Module} {d : DeclId} (h : (m.decl d).hasComposer = true) :
    d < m.decls.size :=
  Nat.lt_of_not_le fun hle => by
    rw [decl_of_size_le hle] at h
    exact absurd h (by decide)

/-- The defaults taken out of a declaration are expressions it owned. -/
theorem mem_owned_of_takeExprs_defaults {m : Module} {d : DeclId} {o : Option Expr} {e : Expr}
    (ho : o ∈ (m.takeExprs d).2.defaults) (he : e ∈ o) : e ∈ (m.decl d).owned := by
  rw [takeExprs_snd] at ho
  obtain ⟨p, hp, rfl⟩ := List.mem_map.1 ho
  exact List.mem_append_left _ (List.mem_filterMap.2 ⟨p, hp, he⟩)

/-- The body taken out of a declaration is an expression it owned. -/
theorem mem_owned_of_takeExprs_body {m : Module} {d : DeclId} {e : Expr}
    (he : e ∈ (m.takeExprs d).2.body) : e ∈ (m.decl d).owned := by
  rw [takeExprs_snd] at he
  exact List.mem_append_right _ (Option.mem_toList.2 he)

end Module

namespace Composer

/-- Every declaration recorded as lowered, and every recorded clone, has a composer
parameter. -/
structure Registered (s : ComposerState) : Prop where
  lowered : ∀ d ∈ s.lowered, (s.module.decl d).hasComposer = true
  clones : ∀ p ∈ s.clones, (s.module.decl p.2).hasComposer = true

/-- How a walk may change the state: the arena grows, a declaration already in it keeps its
core and holds no declaration it did not hold, containers, files and type parameters stay,
registration and `fn` nodes in the arena carry over, the records of clones grow, and only a
declaration held before is held. -/
structure Framed (s s' : ComposerState) : Prop where
  size_le : s.module.decls.size ≤ s'.module.decls.size
  core_eq : ∀ d < s.module.decls.size, (s'.module.decl d).core = (s.module.decl d).core
  nests_sub : ∀ x < s.module.decls.size, ∀ y, s'.module.Nests x y → s.module.Nests x y
  containers_eq : s'.module.containers = s.module.containers
  files_eq : s'.module.files = s.module.files
  registered : Registered s → Registered s'
  fnsInArena : s.module.FnsInArena → s'.module.FnsInArena
  typeParams_eq : s'.module.typeParams = s.module.typeParams
  clones_sub : s.clones <:+ s'.clones
  held : ∀ z y, s'.module.Nests z y → ∃ z', s.module.Nests z' y

namespace Framed

theorem refl (s : ComposerState) : Framed s s :=
  ⟨Nat.le_refl _, fun _ _ => rfl, fun _ _ _ h => h, rfl, rfl, id, id, rfl, List.suffix_refl _,
    fun z _ h => ⟨z, h⟩⟩

theorem trans {s₁ s₂ s₃ : ComposerState} (h₁ : Framed s₁ s₂) (h₂ : Framed s₂ s₃) :
    Framed s₁ s₃ where
  size_le := Nat.le_trans h₁.size_le h₂.size_le
  core_eq d hd := (h₂.core_eq d (Nat.lt_of_lt_of_le hd h₁.size_le)).trans (h₁.core_eq d hd)
  nests_sub x hx y h := h₁.nests_sub x hx y (h₂.nests_sub x (Nat.lt_of_lt_of_le hx h₁.size_le) y h)
  containers_eq := h₂.containers_eq.trans h₁.containers_eq
  files_eq := h₂.files_eq.trans h₁.files_eq
  registered h := h₂.registered (h₁.registered h)
  fnsInArena h := h₂.fnsInArena (h₁.fnsInArena h)
  typeParams_eq := h₂.typeParams_eq.trans h₁.typeParams_eq
  clones_sub := h₁.clones_sub.trans h₂.clones_sub
  held z y h := by
    obtain ⟨z', h'⟩ := h₂.held z y h
    exact h₁.held z' y h'

end Framed

/-- Framing as a preorder on the transformer's states. -/
def framing : Growth ComposerState := ⟨Framed, Framed.refl, Framed.trans⟩

/-- The step `x`, run from a state satisfying `P`, ends when it succeeds in a framed state
satisfying `Q` with the result, for every choice of options. -/
def Framing {α : Type} (P : ComposerState → Prop) (x : M α) (Q : α → ComposerState → Prop) : Prop :=
  ∀ opts, (sem opts).Triple framing (fun _ => True) P x Q

/-! ## Framed steps -/

/-- Changing the module, and the records of clones and lowered declarations, only so that the
arena keeps its size and every core, nests nothing new and keeps containers, files and type
parameters, so that the records of clones grow, and so that every recorded declaration has a
composer parameter, is framed. -/
theorem framed_edit {s s' : ComposerState}
    (hsize : s'.module.decls.size = s.module.decls.size)
    (hcore : ∀ d, (s'.module.decl d).core = (s.module.decl d).core)
    (hnests : ∀ x y, s'.module.Nests x y → s.module.Nests x y)
    (hcont : s'.module.containers = s.module.containers) (hfiles : s'.module.files = s.module.files)
    (htp : s'.module.typeParams = s.module.typeParams) (hclones : s.clones <:+ s'.clones)
    (hreg : Registered s → Registered s') : Framed s s' where
  size_le := Nat.le_of_eq hsize.symm
  core_eq d _ := hcore d
  nests_sub x _ y h := hnests x y h
  containers_eq := hcont
  files_eq := hfiles
  registered := hreg
  fnsInArena h x y hxy := hsize ▸ h x y (hnests x y hxy)
  typeParams_eq := htp
  clones_sub := hclones
  held z y h := ⟨z, hnests z y h⟩

/-- Editing the module so that it keeps its size and every core and nests nothing new keeps
registration. -/
theorem registered_of_core {s : ComposerState} {m' : Module}
    (hcore : ∀ d, (m'.decl d).core = (s.module.decl d).core) (h : Registered s) :
    Registered { s with module := m' } where
  lowered d hd := by
    rw [← Decl.hasComposer_core, hcore d, Decl.hasComposer_core]
    exact h.lowered d hd
  clones p hp := by
    rw [← Decl.hasComposer_core, hcore p.2, Decl.hasComposer_core]
    exact h.clones p hp

/-- An edit of the module that keeps its arena, containers and type parameters, such as
allocating a value. -/
theorem framed_of_decls_eq {s : ComposerState} {m' : Module} (hdecls : m'.decls = s.module.decls)
    (hcont : m'.containers = s.module.containers) (hfiles : m'.files = s.module.files)
    (htp : m'.typeParams = s.module.typeParams) :
    Framed s { s with module := m' } :=
  have hdecl := Module.decl_congr s.module hdecls
  framed_edit (congrArg Array.size hdecls) (fun d => by rw [hdecl]) (fun x y h => by
    rwa [Module.Nests, Module.nestedDecls, hdecl] at h) hcont hfiles htp (List.suffix_refl _)
    (registered_of_core fun d => by rw [hdecl])

theorem framed_countCall (s : ComposerState) : Framed s { s with calls := s.calls + 1 } :=
  framed_edit rfl (fun _ => rfl) (fun _ _ h => h) rfl rfl rfl (List.suffix_refl _)
    fun h => ⟨h.lowered, h.clones⟩

/-- Recording a declaration with a composer parameter as lowered is framed. -/
theorem framed_markLowered {s : ComposerState} {d : DeclId}
    (hd : (s.module.decl d).hasComposer = true) : Framed s { s with lowered := d :: s.lowered } :=
  framed_edit rfl (fun _ => rfl) (fun _ _ h => h) rfl rfl rfl (List.suffix_refl _) fun h =>
    ⟨fun x hx => (List.mem_cons.1 hx).elim (fun h => h ▸ hd) (h.lowered x), h.clones⟩

/-- Taking out the defaults and body of a declaration keeps every core. -/
theorem core_takeExprs (m : Module) (d x : DeclId) :
    ((m.takeExprs d).1.decl x).core = (m.decl x).core := by
  rw [Module.takeExprs_fst, Module.decl_setDecl]
  split
  · next h =>
    rw [h.1]
    simp [Decl.core, Param.undefaulted, Function.comp_def]
  · rfl

/-- Taking out the defaults and body of a declaration is framed. -/
theorem framed_takeExprs (s : ComposerState) (d : DeclId) :
    Framed s { s with module := (s.module.takeExprs d).1 } :=
  have hcore := core_takeExprs s.module d
  framed_edit (by simp [Module.takeExprs_fst]) hcore
    (fun _ _ h => (Module.nests_takeExprs h).2) rfl rfl rfl (List.suffix_refl _)
    (registered_of_core hcore)

/-- Putting back defaults and a body keeps every core. -/
theorem core_putExprs (m : Module) (d x : DeclId) (xs : DeclExprs) :
    ((m.putExprs d xs).decl x).core = (m.decl x).core := by
  rw [Module.putExprs, Module.decl_modifyDecl]
  split
  · simp only [Decl.core, map_undefaulted_putDefaults]
  · rfl

/-- Putting back defaults and a body is framed, from any earlier state the current one is
framed from, when what they hold the declaration held then and lies in the arena then. -/
theorem framed_putExprs {s₀ s : ComposerState} (h : Framed s₀ s) {d : DeclId} {xs : DeclExprs}
    (hxs : ∀ y, ((∃ o ∈ xs.defaults, ∃ e ∈ o, y ∈ e.nestedFns) ∨ ∃ e ∈ xs.body, y ∈ e.nestedFns) →
      (d < s₀.module.decls.size → s₀.module.Nests d y) ∧ (∃ z, s₀.module.Nests z y) ∧
        (s₀.module.FnsInArena → y < s₀.module.decls.size)) :
    Framed s₀ { s with module := s.module.putExprs d xs } := by
  have hsize : (s.module.putExprs d xs).decls.size = s.module.decls.size :=
    Module.decls_size_modifyDecl _ _ _
  have hcore : ∀ x, ((s.module.putExprs d xs).decl x).core = (s.module.decl x).core :=
    fun x => core_putExprs s.module d x xs
  refine ⟨hsize ▸ h.size_le, fun x hx => (hcore x).trans (h.core_eq x hx), ?_, h.containers_eq,
    h.files_eq, fun hr => registered_of_core hcore (h.registered hr), fun hf x y hxy => ?_,
    h.typeParams_eq, h.clones_sub, fun z y hzy => ?_⟩
  · intro x hx y hxy
    rcases Module.nests_putExprs hxy with ⟨rfl, hy⟩ | hxy
    · exact (hxs y hy).1 hx
    · exact h.nests_sub x hx y hxy
  · rcases Module.nests_putExprs hxy with ⟨-, hy⟩ | hxy
    · exact hsize ▸ Nat.lt_of_lt_of_le ((hxs y hy).2.2 hf) h.size_le
    · exact hsize ▸ h.fnsInArena hf x y hxy
  · rcases Module.nests_putExprs hzy with ⟨-, hy⟩ | hzy
    · exact (hxs y hy).2.1
    · exact h.held z y hzy

/-- Changing a declaration appended after an earlier state, in what it holds and whether it
has a composer parameter neither, is framed from that state. -/
theorem framed_modifyDecl {s₀ s : ComposerState} (h : Framed s₀ s) {i : DeclId}
    (hi : s₀.module.decls.size ≤ i) {f : Decl → Decl} (howned : ∀ x, (f x).owned = x.owned)
    (hcomposer : ∀ x, (f x).hasComposer = x.hasComposer) :
    Framed s₀ { s with module := s.module.modifyDecl i f } := by
  have hsize : (s.module.modifyDecl i f).decls.size = s.module.decls.size :=
    Module.decls_size_modifyDecl _ _ _
  have hreads : ∀ x, ((s.module.modifyDecl i f).decl x).hasComposer = (s.module.decl x).hasComposer :=
    fun x => by
      rw [Module.decl_modifyDecl]
      split
      · exact hcomposer _
      · rfl
  refine ⟨hsize ▸ h.size_le, fun x hx => ?_, fun x hx y hxy => ?_, h.containers_eq, h.files_eq,
    fun hr => ?_, fun hf x y hxy => ?_, h.typeParams_eq, h.clones_sub,
    fun z y hzy => h.held z y (Module.nests_modifyDecl_of_owned howned hzy)⟩
  · have hne : ¬(i = x ∧ x < s.module.decls.size) := fun hix => absurd (hix.1 ▸ hi) (Nat.not_le.2 hx)
    rw [Module.decl_modifyDecl, if_neg hne]
    exact h.core_eq x hx
  · exact h.nests_sub x hx y (Module.nests_modifyDecl_of_owned howned hxy)
  · have hr' := h.registered hr
    exact ⟨fun d hd => (hreads d).trans (hr'.lowered d hd), fun p hp => (hreads p.2).trans (hr'.clones p hp)⟩
  · exact hsize ▸ h.fnsInArena hf x y (Module.nests_modifyDecl_of_owned howned hxy)

/-! ## Lowering expressions -/

/-- A walk that holds no declaration its argument did not hold holds none that a larger set
of declarations leaves out. -/
theorem Framing.mono' {α : Type} {x : M α} {nested : α → List DeclId} {S : List DeclId}
    {T : DeclId → Prop} (hx : Framing (fun _ => True) x fun a _ => ∀ y ∈ nested a, y ∈ S)
    (hST : ∀ y ∈ S, T y) : Framing (fun _ => True) x fun a _ => ∀ y ∈ nested a, T y :=
  fun opts => (hx opts).mono (fun _ h => h) fun _ _ h y hy => hST y (h y hy)

/-- Two nodes with the same own declaration and the same children hold the same
declarations. -/
theorem nestedFns_congr {e₁ e₂ : Expr} (hf : e₁.fnDecl? = e₂.fnDecl?)
    (hc : e₁.children = e₂.children) : e₁.nestedFns = e₂.nestedFns := by
  rw [Expr.nestedFns_eq, hf, hc, ← Expr.nestedFns_eq]

theorem nestedFns_ofCall (c : Call) (t t' : Ty) :
    (Expr.ofCall c t).nestedFns = (Expr.ofCall c t').nestedFns :=
  nestedFns_congr rfl rfl

/-- A call given arguments, each of which it had or holds no declaration, holds no declaration
it did not hold. -/
theorem nestedFns_ofCall_sub {c : Call} {target : CallTarget} {args : List (Option Expr)}
    {t t' : Ty} (hargs : ∀ a ∈ args.filterMap id, a ∈ c.args.filterMap id ∨ a.nestedFns = []) :
    ∀ y ∈ (Expr.ofCall { c with target, args, composable := true } t).nestedFns,
      y ∈ (Expr.ofCall c t').nestedFns := by
  refine Expr.forall_nestedFns (by simp [Expr.ofCall, Expr.fnDecl?]) fun a ha y hy => ?_
  rcases Expr.mem_children_rewritten hargs ha with ha | ha
  · exact Expr.nestedFns_subset_of_mem_children ha hy
  · rw [ha] at hy
    cases hy

/-- The arguments a rewritten call gets beyond those it had hold no declaration. -/
theorem nestedFns_rewriteCall {k : ValueId} {c c' : Call} {target : CallTarget}
    {owner receivers : Nat} {hasDefaults : Bool} {opts : LowerOptions} {s s' : ComposerState}
    (h : rewriteCall k c target owner receivers hasDefaults opts s = .ok (c', s')) {t t' : Ty} :
    s' = { s with calls := s.calls + 1 } ∧
      ∀ y ∈ (Expr.ofCall c' t).nestedFns, y ∈ (Expr.ofCall c t').nestedFns := by
  obtain ⟨rfl, rfl, -, -⟩ := rewriteCall_ok h
  refine ⟨rfl, nestedFns_ofCall_sub fun a ha => ?_⟩
  have hleaf : ∀ x : Expr, x.fnDecl? = none → x.children = [] → x.nestedFns = [] :=
    fun _ => Expr.nestedFns_of_leaf
  simp only [List.filterMap_append, List.mem_append] at ha
  rcases ha with ((ha | ha) | ha) | ha
  · rcases mem_filledArgs_or_placeholder ha with ha | ⟨p, hp⟩
    · exact .inl ha
    · exact .inr (Expr.nestedFns_eq_nil
        (defaultArgumentFor_all (fun _ _ => rfl) (fun _ _ => rfl) (fun _ _ => rfl) hp))
  · obtain ⟨o, ho, rfl⟩ := List.mem_filterMap.1 ha
    cases List.mem_singleton.1 ho
    exact .inr (hleaf _ rfl rfl)
  · obtain ⟨o, ho, rfl⟩ := List.mem_filterMap.1 ha
    cases List.eq_of_mem_replicate ho
    exact .inr (hleaf _ rfl rfl)
  · obtain ⟨o, ho, rfl⟩ := List.mem_filterMap.1 ha
    obtain ⟨i, -, hi⟩ := List.mem_map.1 ho
    cases hi
    exact .inr (hleaf _ rfl rfl)

/-- Lowering an expression, children first, is framed and holds no declaration the expression
did not hold, when the walks it hands its calls and nested functions to are framed and so. -/
theorem framing_rewriteExpr {onCall : Call → M Call} {onNested : DeclId → M DeclId}
    (hcall : ∀ c, Framing (fun _ => True) (onCall c) fun c' _ =>
      ∀ y ∈ (Expr.ofCall c' Ty.unit).nestedFns, y ∈ (Expr.ofCall c Ty.unit).nestedFns)
    (hnested : ∀ d, Framing (fun _ => True) (onNested d) fun d' _ => d' = d) (fr : BodyFrame)
    (e : Expr) :
    Framing (fun _ => True) (rewriteExpr onCall onNested fr e) fun e' _ =>
      ∀ y ∈ e'.nestedFns, y ∈ e.nestedFns := by
  intro opts
  -- the children are rewritten first, and a nested function keeps its index
  have hchildren : (sem opts).Safe (fun _ => False) framing (fun _ => True) (fun _ => True)
      (e.mapChildrenM (rewriteExpr onCall onNested fr) onNested) fun e' _ =>
        e'.callShape? = e.callShape? ∧ (∀ c' ∈ e'.children, ∀ y ∈ c'.nestedFns, y ∈ e.nestedFns) ∧
          ∀ d' ∈ e'.fnDecl?, d' ∈ e.fnDecl? :=
    StepSemantics.Safe.mapChildrenM e (fun _ _ _ _ h => h) (fun _ _ _ h => h)
      (fun c hc => StepSemantics.Safe.of_triple ((framing_rewriteExpr hcall hnested fr c opts).mono
        (fun _ h => h) fun _ _ h y hy => Expr.nestedFns_subset_of_mem_children hc (h y hy))
        fun _ _ _ _ _ h => h)
      (fun d hd => StepSemantics.Safe.of_triple ((hnested d opts).mono (fun _ h => h)
        fun _ _ h => h ▸ hd) fun _ _ _ _ _ h => h)
  rw [rewriteExpr]
  refine StepSemantics.Triple.bind hchildren.triple fun e' =>
    StepSemantics.Triple.of_pure_pre fun hpre => ?_
  -- the rebuilt node holds only what the expression held, and so does every node with its
  -- children and own declaration
  have hsame : ∀ n : Expr, n.fnDecl? = e'.fnDecl? → n.children = e'.children →
      ∀ y ∈ n.nestedFns, y ∈ e.nestedFns := fun n hf hc =>
    nestedFns_congr hf hc ▸ Expr.forall_nestedFns
      (fun y hy => Expr.mem_nestedFns.2 (.inl (hpre.2.2 y hy))) hpre.2.1
  split
  · exact StepSemantics.Triple.pure _ fun _ _ => hsame _ rfl rfl
  · exact StepSemantics.Triple.pure _ fun _ _ => hsame _ rfl rfl
  · exact StepSemantics.Triple.pure _ fun _ _ => hsame _ rfl rfl
  · rename_i tgt d x ta args cc t
    split
    · exact StepSemantics.Triple.pure _ fun _ _ => hsame _ rfl rfl
    · refine StepSemantics.Triple.bind ((hcall ⟨tgt, d, x, ta, args, cc⟩ opts).mono
        (fun _ _ => trivial) fun _ _ h => h) fun c' => StepSemantics.Triple.pure _ fun _ h => ?_
      intro y hy
      rw [nestedFns_ofCall c' t Ty.unit] at hy
      exact hsame (Expr.ofCall ⟨tgt, d, x, ta, args, cc⟩ Ty.unit) rfl rfl y (h y hy)
  · exact StepSemantics.Triple.pure _ fun _ _ => hsame _ rfl rfl
termination_by sizeOf e
decreasing_by exact Expr.sizeOf_lt_of_mem_children hc

/-- The prologue of a clone's body adds no `fn` node: what holds of every declaration the
defaults and the body hold holds of every declaration the body with its prologue holds. -/
theorem nestedFns_defaultPrologue {T : DeclId → Prop} (d : Decl) {defaults : List (Option Expr)}
    (words : List ValueId) {b : Expr}
    (hdefaults : ∀ o ∈ defaults, ∀ e ∈ o, ∀ y ∈ e.nestedFns, T y) (hb : ∀ y ∈ b.nestedFns, T y) :
    ∀ y ∈ (defaultPrologue d defaults words b).nestedFns, T y :=
  Expr.forall_nestedFns_iff_all.2 (all_defaultPrologue_of (fun _ _ _ _ _ h => nomatch h)
    (fun _ _ _ _ h => nomatch h) (fun _ _ _ _ h => nomatch h) (fun _ _ _ h => nomatch h) d words
    (fun o ho e he => Expr.forall_nestedFns_iff_all.1 (hdefaults o ho e he))
    (Expr.forall_nestedFns_iff_all.1 hb))

/-- A run of `mapExprs` ends exactly when, the expressions of `d` taken out, lowering the defaults
and then the body ends; the results are put back. -/
theorem mapExprs_eq_ok {f : Expr → M Expr} {d : DeclId} {opts : LowerOptions}
    {s s' : ComposerState} {u : Unit} :
    mapExprs f d opts s = .ok (u, s') ↔ ∃ defaults s₃ body s₄,
      ((s.module.takeExprs d).2.defaults.mapM fun (o : Option Expr) => o.mapM f :
          M (List (Option Expr))) opts { s with module := (s.module.takeExprs d).1 } =
          .ok (defaults, s₃) ∧
        ((s.module.takeExprs d).2.body.mapM f : M (Option Expr)) opts s₃ = .ok (body, s₄) ∧
        s' = { s₄ with module := s₄.module.putExprs d ⟨defaults, body⟩ } := by
  rw [mapExprs, bind_eq_ok_iff]
  constructor
  · rintro ⟨_, _, h₁, h⟩
    cases h₁
    dsimp only at h
    obtain ⟨u, s₂, h₂, h⟩ := bind_ok h
    cases modifyModule_ok h₂
    obtain ⟨defaults, s₃, h₃, h⟩ := bind_ok h
    obtain ⟨body, s₄, h₄, h⟩ := bind_ok h
    exact ⟨defaults, s₃, body, s₄, h₃, h₄, modifyModule_ok h⟩
  · rintro ⟨defaults, s₃, body, s₄, h₃, h₄, rfl⟩
    refine ⟨_, s, rfl, bind_eq_ok_iff.2 ⟨(), _, rfl, bind_eq_ok_iff.2 ⟨defaults, s₃, h₃,
      bind_eq_ok_iff.2 ⟨body, s₄, h₄, rfl⟩⟩⟩⟩

/-- Lowering the defaults and body of a declaration in place is framed when the walk is framed
and holds no declaration the expression it lowers did not hold. -/
theorem framing_mapExprs {f : Expr → M Expr}
    (hf : ∀ e, Framing (fun _ => True) (f e) fun e' _ => ∀ y ∈ e'.nestedFns, y ∈ e.nestedFns)
    (d : DeclId) : Framing (fun _ => True) (mapExprs f d) fun _ _ => True := by
  intro opts s u s' h _ _
  obtain ⟨defaults, s₃, body, s₄, h₃, h₄, rfl⟩ := mapExprs_eq_ok.1 h
  have hg₂ := framed_takeExprs s d
  -- each expression taken out is lowered to one holding only what the declaration held
  have hwalk : ∀ e ∈ (s.module.decl d).owned, Framing (fun _ => True) (f e) fun e' _ =>
      ∀ y ∈ e'.nestedFns, s.module.Nests d y := fun e he =>
    (hf e).mono' fun y hy => Decl.mem_nestedFns.2 ⟨e, he, hy⟩
  obtain ⟨-, hg₃, hdefaults⟩ := StepSemantics.Triple.mapM
    (Q := fun _ (o : Option Expr) _ => ∀ e ∈ o, ∀ y ∈ e.nestedFns, s.module.Nests d y)
    (fun _ _ _ _ _ h => h) (fun _ _ _ h => h) _ (fun o ho =>
      (StepSemantics.Triple.option o fun e he =>
        hwalk e (Module.mem_owned_of_takeExprs_defaults ho he) opts).mono
          (fun _ h => h) fun _ _ h => h.2) _ defaults s₃ h₃ trivial trivial
  obtain ⟨-, hg₄, -, hbody⟩ := StepSemantics.Triple.option _ (fun e he =>
    hwalk e (Module.mem_owned_of_takeExprs_body he) opts) s₃ body s₄ h₄ trivial trivial
  -- what is put back holds only what the declaration held
  refine ⟨trivial, framed_putExprs (hg₂.trans (hg₃.trans hg₄)) ?_, trivial⟩
  intro y hy
  have hnests : s.module.Nests d y := by
    rcases hy with ⟨o, ho, e, he, hy⟩ | ⟨e, he, hy⟩
    · exact forall_mem_of_forall₂ hdefaults o ho e he y hy
    · exact hbody e he y hy
  exact ⟨fun _ => hnests, ⟨d, hnests⟩, fun hf => hf d y hnests⟩

/-- A step that fails is framed: it has no final state. -/
theorem framing_throw {α : Type} {Q : α → ComposerState → Prop} (e : LowerError) :
    Framing (fun _ => True) (throw e : M α) Q :=
  fun _ _ _ _ h => absurd h throw_ne_ok

/-! ## The walks -/

/-- Finding the target of a call is framed when finding a lowered form is. -/
theorem framing_targetShape {lower : DeclId → M DeclId}
    (hlower : ∀ d, Framing (fun _ => True) (lower d) fun _ _ => True) (c : Call) :
    Framing (fun _ => True) (targetShape lower c) fun _ _ => True := by
  intro opts s sh s' h _ _
  change targetShape lower c opts s = .ok (sh, s') at h
  rcases targetShape_eq_ok h with ⟨rfl, -⟩ | ⟨t, owner, -, -, hl, -⟩
  · exact ⟨trivial, Framed.refl _, trivial⟩
  · obtain ⟨-, hg, -⟩ := hlower t opts s owner s' hl trivial trivial
    exact ⟨trivial, hg, trivial⟩

/-- Lowering a call is framed when finding lowered forms is, and the lowered call holds no
declaration the call did not. -/
theorem framing_lowerCall {fuel : Nat}
    (hlower : ∀ d, Framing (fun _ => True) (lowerDecl fuel d) fun _ _ => True) (k : ValueId)
    (c : Call) :
    Framing (fun _ => True) (lowerCall (fuel + 1) k c) fun c' _ =>
      ∀ y ∈ (Expr.ofCall c' Ty.unit).nestedFns, y ∈ (Expr.ofCall c Ty.unit).nestedFns := by
  intro opts s c' s' h _ _
  change lowerCall (fuel + 1) k c opts s = .ok (c', s') at h
  rw [lowerCall] at h
  split at h
  · cases h
    exact ⟨trivial, Framed.refl s, fun _ hy => hy⟩
  obtain ⟨shape, s₁, h₁, h⟩ := bind_ok h
  obtain ⟨-, hg₁, -⟩ := framing_targetShape hlower c opts s shape s₁ h₁ trivial trivial
  rcases shape with _ | ⟨target, owner, receivers, hasDefaults⟩
  · cases h
    exact ⟨trivial, hg₁, fun _ hy => hy⟩
  · obtain ⟨rfl, hsub⟩ := nestedFns_rewriteCall h
    exact ⟨trivial, hg₁.trans (framed_countCall s₁), hsub⟩

/-- Lowering a nested function in place is framed and keeps its index. -/
theorem framing_bodyNested {fuel : Nat}
    (hcall : ∀ k c, Framing (fun _ => True) (lowerCall fuel k c) fun c' _ =>
      ∀ y ∈ (Expr.ofCall c' Ty.unit).nestedFns, y ∈ (Expr.ofCall c Ty.unit).nestedFns)
    (hnested : ∀ fr d, Framing (fun _ => True) (bodyNested fuel fr d) fun r _ => r = d)
    (fr : BodyFrame) (d : DeclId) :
    Framing (fun _ => True) (bodyNested (fuel + 1) fr d) fun r _ => r = d := by
  intro opts s r s' h _ _
  change bodyNested (fuel + 1) fr d opts s = .ok (r, s') at h
  rw [bodyNested] at h
  obtain ⟨m, s₁, h₁, h⟩ := bind_ok h
  cases h₁
  obtain ⟨u, s₂, h₂, h⟩ := bind_ok h
  cases h
  obtain ⟨-, hg, -⟩ := framing_mapExprs
    (framing_rewriteExpr (hcall _) (hnested _) _) d opts s u _ h₂ trivial trivial
  exact ⟨trivial, hg, rfl⟩

/-- Whether a declaration needs a clone, spelled as `lowerDecl` tests it. -/
theorem needsClone_decl (m : Module) (d : DeclId) :
    (m.decl d).needsClone = ((m.decl d).isMarkedComposable && !isNonComposableInlinedLambda m d &&
      !(m.decl d).isExpect && !(m.decl d).params.any (·.origin == .composer)) :=
  rfl

/-- What finding the lowered form of a declaration can do. It answers the declaration itself,
keeping the state, when the declaration is lowered already or needs no clone; it answers the
clone recorded for it; it records a declaration with a composer parameter as lowered; and past
every guard it clones the declaration at the fuel below. -/
theorem lowerDecl_eq_ok {fuel : Nat} {d r : DeclId} {opts : LowerOptions} {s s' : ComposerState}
    (h : lowerDecl fuel d opts s = .ok (r, s')) :
    (s' = s ∧ r = d ∧ (d ∈ s.lowered ∨ (s.module.decl d).needsClone = false)) ∨
    (s' = s ∧ (d, r) ∈ s.clones) ∨
    ((s.module.decl d).hasComposer = true ∧ d ∉ s.lowered ∧ r = d ∧
      s' = { s with lowered := d :: s.lowered }) ∨
    (s.clones.lookup d = none ∧ (s.module.decl d).needsClone = true ∧
      ∃ f, fuel = f + 1 ∧ cloneWithComposer f d opts s = .ok (r, s')) := by
  rw [lowerDecl.eq_def, bind_eq_ok_iff] at h
  obtain ⟨s₀, s₁, h₀, h⟩ := h
  cases h₀
  split at h
  · rename_i hlow
    cases h
    exact .inl ⟨rfl, rfl, .inl (by simpa using hlow)⟩
  -- the next three guards each return a declaration that needs no clone
  split at h
  · cases h
    exact .inl ⟨rfl, rfl, .inr (by rw [needsClone_decl]; simp_all)⟩
  split at h
  · cases h
    exact .inl ⟨rfl, rfl, .inr (by rw [needsClone_decl]; simp_all)⟩
  split at h
  · cases h
    exact .inl ⟨rfl, rfl, .inr (by rw [needsClone_decl]; simp_all)⟩
  rename_i hlow _ _ _
  cases hdone : s.clones.lookup d with
  | some done =>
    rw [hdone] at h
    cases h
    exact .inr (.inl ⟨rfl, mem_of_lookup_eq_some hdone⟩)
  | none => ?_
  rw [hdone] at h
  dsimp only at h
  split at h
  · rename_i hcomposer
    cases h
    exact .inr (.inr (.inl ⟨hcomposer, by simpa using hlow, rfl, rfl⟩))
  -- past every guard, the declaration needs a clone
  have hneeds : (s.module.decl d).needsClone = true := by
    rw [needsClone_decl]
    simp_all
  split at h
  · exact absurd h throw_ne_ok
  · rename_i f
    exact .inr (.inr (.inr ⟨rfl, hneeds, f, rfl, h⟩))

/-- Finding the lowered form of a declaration is framed when cloning, at the fuel below, is.
Once the records are registered, the form found for a declaration of the arena lies in the
arena and needs no clone: the declaration itself when it needs none, or a clone, which has a
composer parameter. -/
theorem framing_lowerDecl {fuel : Nat}
    (hclone : ∀ f, fuel = f + 1 → ∀ d, Framing (fun _ => True) (cloneWithComposer f d)
      fun r s => (s.module.decl r).hasComposer = true) (d : DeclId) :
    Framing (fun _ => True) (lowerDecl fuel d) fun r s => Registered s →
      d < s.module.decls.size → r < s.module.decls.size ∧ (s.module.decl r).needsClone = false := by
  intro opts s r s' h _ _
  change lowerDecl fuel d opts s = .ok (r, s') at h
  rcases lowerDecl_eq_ok h with ⟨rfl, rfl, hlow | hn⟩ | ⟨rfl, hcl⟩ | ⟨hcomposer, -, rfl, rfl⟩ |
    ⟨-, -, f, rfl, hrun⟩
  · -- a lowered declaration has a composer parameter once the records are registered
    refine ⟨trivial, Framed.refl _, fun hr _ => ?_⟩
    have hc := hr.lowered _ hlow
    exact ⟨Module.lt_size_of_hasComposer hc, Decl.needsClone_eq_false_of_hasComposer hc⟩
  · exact ⟨trivial, Framed.refl _, fun _ hd => ⟨hd, hn⟩⟩
  · refine ⟨trivial, Framed.refl _, fun hr _ => ?_⟩
    have hc := hr.clones _ hcl
    exact ⟨Module.lt_size_of_hasComposer hc, Decl.needsClone_eq_false_of_hasComposer hc⟩
  · exact ⟨trivial, framed_markLowered hcomposer, fun _ hd =>
      ⟨hd, Decl.needsClone_eq_false_of_hasComposer hcomposer⟩⟩
  · obtain ⟨-, hg, hc⟩ := hclone f rfl d opts s r s' hrun trivial trivial
    exact ⟨trivial, hg, fun _ _ =>
      ⟨Module.lt_size_of_hasComposer hc, Decl.needsClone_eq_false_of_hasComposer hc⟩⟩

end Composer

end ComposeLowering
