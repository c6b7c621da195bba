import ComposeLowering.Lowering.Pipeline
import ComposeLowering.Proofs.Composer.Clone

/-!
# A run of the composer pass leaves every member settled

A declaration is *settled* when neither it nor any declaration nested in it, at any depth,
needs a clone: each is in the arena and is not composable, or is an inlined lambda whose
parameter type is not composable, or is an `expect` declaration, or already has a composer
parameter. A second run meets nothing to clone below a settled declaration.

This module proves that a successful run leaves every member of every container settled, for a
module whose containers and `fn` nodes hold only declarations of the arena (`Module.InArena`).
The argument follows the run:

* a visit lowers a declaration, which gives one that needs no clone (`Composer.FrameWalks`),
  then visits the functions nested in it and puts back its defaults and body holding only what
  those visits returned, so the declaration it returns is settled;
* a visit keeps settled what was settled (`Composer.Visited`): every step of the walks is
  framed, and the only declaration whose nesting a visit changes is the one whose expressions
  it puts back, which then nests only settled declarations, each one it nested before or a
  recorded clone;
* the loops over containers and their members keep `Composer.Swept`: a container already done
  lists only settled declarations, and the container in progress lists settled declarations and
  members still to visit;
* recomputing the parents changes no container and no nesting.
-/

namespace ComposeLowering

namespace Module

/-- Every declaration a container lists, and every declaration a `fn` node holds, lies in the
arena. A module read from a request satisfies it: its indices are the ones the reader
allocated. -/
structure InArena (m : Module) : Prop where
  members_lt : ∀ c, ∀ d ∈ (m.container c).members, d < m.decls.size
  fns : m.FnsInArena

/-- Whether every declaration a container lists, and every declaration a `fn` node holds, lies
in the arena. -/
def checkInArena (m : Module) : Bool :=
  m.containers.toList.all (fun k => k.members.all (· < m.decls.size)) &&
    (List.range m.decls.size).all fun x => (m.nestedDecls x).all (· < m.decls.size)

theorem inArena_of_check {m : Module} (h : m.checkInArena = true) : m.InArena := by
  simp only [checkInArena, Bool.and_eq_true, List.all_eq_true, List.mem_range,
    decide_eq_true_eq] at h
  refine ⟨fun c d hd => ?_, fun x y hxy => ?_⟩
  · rcases hc : m.containers[c]? with _ | k
    · rw [container, hc, Option.getD_none] at hd
      exact absurd hd List.not_mem_nil
    · have hk : k ∈ m.containers.toList := Array.mem_toList_iff.2 (Array.mem_of_getElem? hc)
      rw [container, hc, Option.getD_some] at hd
      exact h.1 k hk d hd
  · exact h.2 x (Nat.lt_of_not_le fun hle => not_nests_of_size_le hle hxy) y hxy

/-- A set of declarations of the arena, closed under nesting, none of which needs a clone. -/
structure SettledSet (m : Module) (R : DeclId → Prop) : Prop where
  lt_size : ∀ d, R d → d < m.decls.size
  needsClone : ∀ d, R d → (m.decl d).needsClone = false
  nests : ∀ d, R d → ∀ e, m.Nests d e → R e

/-- A declaration is settled when it lies in a settled set: neither it nor anything nested in
it, at any depth, needs a clone. -/
def Settled (m : Module) (d : DeclId) : Prop := ∃ R, m.SettledSet R ∧ R d

namespace Settled

variable {m m' : Module} {d : DeclId}

theorem lt_size (h : m.Settled d) : d < m.decls.size :=
  let ⟨_, hR, hd⟩ := h
  hR.lt_size d hd

theorem needsClone (h : m.Settled d) : (m.decl d).needsClone = false :=
  let ⟨_, hR, hd⟩ := h
  hR.needsClone d hd

theorem nests (h : m.Settled d) {e : DeclId} (he : m.Nests d e) : m.Settled e :=
  let ⟨R, hR, hd⟩ := h
  ⟨R, hR, hR.nests d hd e he⟩

/-- Settledness carries over to a module whose arena is at least as long, in which every
declaration of the arena keeps whether it needs a clone and nests only what it nested before or
what is settled there. -/
theorem of_extends (hsize : m.decls.size ≤ m'.decls.size)
    (hclone : ∀ x < m.decls.size, (m'.decl x).needsClone = (m.decl x).needsClone)
    (hnests : ∀ x < m.decls.size, ∀ y, m'.Nests x y → m.Nests x y ∨ m'.Settled y)
    (h : m.Settled d) : m'.Settled d := by
  obtain ⟨R, hR, hd⟩ := h
  refine ⟨fun x => R x ∨ m'.Settled x, ⟨?_, ?_, ?_⟩, .inl hd⟩
  · rintro x (hx | hx)
    · exact Nat.lt_of_lt_of_le (hR.lt_size x hx) hsize
    · exact hx.lt_size
  · rintro x (hx | hx)
    · rw [hclone x (hR.lt_size x hx)]
      exact hR.needsClone x hx
    · exact hx.needsClone
  · rintro x (hx | hx) y hxy
    · rcases hnests x (hR.lt_size x hx) y hxy with hxy | hy
      · exact .inl (hR.nests x hx y hxy)
      · exact .inr hy
    · exact .inr (hx.nests hxy)

/-- Changing only parents keeps a declaration settled. -/
theorem of_reparented (h : m.Reparented m') (hd : m.Settled d) : m'.Settled d :=
  of_extends h.size_eq.ge (fun x _ => h.congr (f := Decl.needsClone) (fun _ => rfl) x)
    (fun _ _ _ hxy => .inl (h.nests_iff.1 hxy)) hd

/-- Putting into a declaration that needs no clone defaults and a body that hold only settled
declarations, when what it still holds is settled too, settles it and keeps every settled
declaration settled. -/
theorem putExprs {xs : DeclExprs} (hd : d < m.decls.size) (hn : (m.decl d).needsClone = false)
    (hold : ∀ y, m.Nests d y → m.Settled y)
    (hnew : ∀ y, ((∃ o ∈ xs.defaults, ∃ e ∈ o, y ∈ e.nestedFns) ∨ ∃ e ∈ xs.body, y ∈ e.nestedFns) →
      m.Settled y)
    {x : DeclId} (hx : m.Settled x ∨ x = d) : (m.putExprs d xs).Settled x := by
  have hsize : (m.putExprs d xs).decls.size = m.decls.size := decls_size_modifyDecl _ _ _
  have hclone : ∀ x, ((m.putExprs d xs).decl x).needsClone = (m.decl x).needsClone := fun x => by
    rw [← Decl.needsClone_core, Composer.core_putExprs, Decl.needsClone_core]
  refine ⟨fun x => m.Settled x ∨ x = d, ⟨?_, ?_, ?_⟩, hx⟩
  · rintro x (hx | rfl)
    · exact hsize ▸ hx.lt_size
    · exact hsize ▸ hd
  · rintro x (hx | rfl)
    · exact (hclone x).trans hx.needsClone
    · exact (hclone x).trans hn
  · intro x hx y hxy
    rcases nests_putExprs hxy with ⟨-, hy⟩ | hnests
    · exact .inl (hnew y hy)
    · rcases hx with hx | rfl
      · exact .inl (hx.nests hnests)
      · exact .inl (hold y hnests)

end Settled

end Module

/-! ## Containers -/

/-- What a container is and where it lies: its kind and the container enclosing it. Lowering
changes what containers list, never their positions. -/
def Container.position (k : Container) : ContainerKind × Option ContainerId := (k.kind, k.parent)

namespace Module

/-- The containers in order read only the files and the classes of each container. -/
theorem subtreeContainers_congr {m m' : Module}
    (h : ∀ c, (m'.container c).classes = (m.container c).classes) :
    ∀ n c, m'.subtreeContainers n c = m.subtreeContainers n c
  | 0, _ => rfl
  | n + 1, c => by
    have ih : m'.subtreeContainers n = m.subtreeContainers n := funext (subtreeContainers_congr h n)
    rw [subtreeContainers, subtreeContainers, h c, ih]

theorem containersInOrder_congr {m m' : Module} (hfiles : m'.files = m.files)
    (hsize : m'.containers.size = m.containers.size)
    (h : ∀ c, (m'.container c).classes = (m.container c).classes) :
    m'.containersInOrder = m.containersInOrder := by
  rw [containersInOrder, containersInOrder, hfiles, hsize,
    funext (subtreeContainers_congr h (m.containers.size + 1))]

theorem container_modifyContainer (m : Module) (c c' : ContainerId) (f : Container → Container) :
    (m.modifyContainer c f).container c' =
      if c = c' ∧ c' < m.containers.size then f (m.container c') else m.container c' := by
  simp only [container, modifyContainer, Array.getElem?_modify]
  by_cases hcc : c = c'
  · subst hcc
    by_cases hc : c < m.containers.size
    · simp [hc]
    · simp [hc]
  · simp [hcc]

/-- After a member is replaced, a container lists the new member, in the container where it
was replaced, or a member it listed before, other than the one replaced. -/
theorem mem_members_replaceMember {m : Module} {c c' : ContainerId} {old new y : DeclId}
    (h : y ∈ ((m.replaceMember c old new).container c').members) :
    (c' = c ∧ y = new) ∨ (y ∈ (m.container c').members ∧ (c' = c → y ≠ old)) := by
  unfold replaceMember at h
  split at h
  · rename_i hold
    change y ∈ ((m.modifyContainer c _).container c').members at h
    rw [container_modifyContainer] at h
    split at h
    · rename_i hc
      obtain ⟨z, hz, hzy⟩ := List.mem_map.1 h
      split at hzy
      · exact .inl ⟨hc.1.symm, hzy.symm⟩
      · rename_i hzold
        subst hzy
        exact .inr ⟨hc.1 ▸ hz, fun _ => hzold⟩
    · rename_i hc
      refine .inr ⟨h, fun hcc => ?_⟩
      exact absurd ⟨hcc.symm, Nat.lt_of_not_le fun hle => by
        rw [container, Array.getElem?_eq_none (hcc ▸ hle)] at hold
        exact nomatch hold⟩ hc
  · exact .inr ⟨h, fun hcc hy => by subst hcc hy; exact ‹¬_› h⟩

theorem containersInOrder_replaceMember (m : Module) (c : ContainerId) (old new : DeclId) :
    (m.replaceMember c old new).containersInOrder = m.containersInOrder := by
  unfold replaceMember
  split
  · refine containersInOrder_congr rfl (Array.size_modify) fun c' => ?_
    change ((m.modifyContainer c _).container c').classes = _
    rw [container_modifyContainer]
    split <;> rfl
  · rfl

theorem decls_size_replaceMember (m : Module) (c : ContainerId) (old new : DeclId) :
    (m.replaceMember c old new).decls.size = m.decls.size :=
  (reparented_replaceMember c old new).size_eq

/-- Changing a container, but not its position, keeps the position of every container. -/
theorem positions_modifyContainer (m : Module) (c : ContainerId) {f : Container → Container}
    (hf : ∀ k, (f k).position = k.position) :
    (m.modifyContainer c f).containers.map Container.position =
      m.containers.map Container.position := by
  apply Array.ext
  · simp [modifyContainer]
  · intro i h₁ h₂
    simp only [modifyContainer, Array.getElem_map, Array.getElem_modify]
    split <;> simp [hf]

theorem positions_replaceMember (m : Module) (c : ContainerId) (old new : DeclId) :
    (m.replaceMember c old new).containers.map Container.position =
      m.containers.map Container.position := by
  unfold replaceMember
  split
  · exact positions_modifyContainer m c
      (f := fun k => { k with members := k.members.map fun x => if x = old then new else x })
      fun _ => rfl
  · rfl

theorem typeParams_replaceMember (m : Module) (c : ContainerId) (old new : DeclId) :
    (m.replaceMember c old new).typeParams = m.typeParams := by
  unfold replaceMember
  split <;> rfl

theorem positions_addMember (m : Module) (c : ContainerId) (d : DeclId) :
    (m.addMember c d).containers.map Container.position = m.containers.map Container.position :=
  positions_modifyContainer m c (f := fun k => { k with members := k.members ++ [d] }) fun _ => rfl

/-- The module with every parent forgotten. -/
def detached (m : Module) : Module :=
  { m with decls := m.decls.map fun (d : Decl) => { d with parent := .detached } }

theorem detached_modifyDecl {f : Decl → Decl} (hf : ∀ x, (f x).unparented = x.unparented)
    (m : Module) (i : DeclId) : (m.modifyDecl i f).detached = m.detached := by
  simp only [detached, modifyDecl]
  congr 1
  apply Array.ext_getElem?
  intro j
  by_cases hij : i = j
  · subst hij
    rcases hi : m.decls[i]? with _ | v
    · simp [Array.getElem?_modify, hi]
    · simp only [Array.getElem?_map, Array.getElem?_modify, hi, if_true, Option.map_some]
      exact congrArg some (hf v)
  · simp [Array.getElem?_modify, hij]

theorem detached_foldl {α : Type} {f : Module → α → Module}
    (hf : ∀ m a, (f m a).detached = m.detached) :
    ∀ (xs : List α) (m : Module), (xs.foldl f m).detached = m.detached
  | [], _ => rfl
  | x :: xs, m => (detached_foldl hf xs (f m x)).trans (hf m x)

theorem detached_patchNested : ∀ (n : Nat) (m : Module) (d : DeclId),
    (m.patchNested n d).detached = m.detached
  | 0, _, _ => rfl
  | n + 1, m, d => by
    rw [patchNested]
    exact (detached_foldl (fun m x => detached_patchNested n m x) _ _).trans
      (detached_foldl (fun m x =>
        detached_modifyDecl (f := fun x => { x with parent := .decl d }) (fun _ => rfl) m x) _ m)

theorem detached_detached (m : Module) : m.detached.detached = m.detached := by
  simp only [detached, Array.map_map]
  rfl

/-- Recomputing the parents changes only parents. -/
theorem detached_patchParents (m : Module) : m.patchParents.detached = m.detached := by
  simp only [patchParents]
  refine (detached_foldl (fun m c => ?_) _ _).trans (detached_detached m)
  exact detached_foldl (fun m x => (detached_patchNested _ _ x).trans
    (detached_modifyDecl (f := fun x => { x with parent := .container c }) (fun _ => rfl) m x)) _ m

theorem containers_patchParents (m : Module) : m.patchParents.containers = m.containers := by
  have h := congrArg Module.containers (detached_patchParents m)
  exact h

theorem files_patchParents (m : Module) : m.patchParents.files = m.files := by
  have h := congrArg Module.files (detached_patchParents m)
  exact h

theorem typeParams_patchParents (m : Module) : m.patchParents.typeParams = m.typeParams := by
  have h := congrArg Module.typeParams (detached_patchParents m)
  exact h

end Module

namespace Composer

/-! ## Visits -/

/-- What every state of a run keeps: the records are registered, and every `fn` node holds a
declaration of the arena. -/
def Steady (s : ComposerState) : Prop := Registered s ∧ s.module.FnsInArena

/-- How a visit may change the state: the arena grows, a declaration in it keeps its core and
nests only what it nested before or what is settled, containers, files and type parameters
stay, the records of clones grow, and a declaration held is one held before or a recorded
clone. -/
structure Visited (s s' : ComposerState) : Prop where
  size_le : s.module.decls.size ≤ s'.module.decls.size
  core_eq : ∀ d < s.module.decls.size, (s'.module.decl d).core = (s.module.decl d).core
  nests : ∀ x < s.module.decls.size, ∀ y, s'.module.Nests x y →
    s.module.Nests x y ∨ s'.module.Settled y
  containers_eq : s'.module.containers = s.module.containers
  files_eq : s'.module.files = s.module.files
  typeParams_eq : s'.module.typeParams = s.module.typeParams
  clones_sub : s.clones <:+ s'.clones
  held : ∀ z y, s'.module.Nests z y → (∃ z', s.module.Nests z' y) ∨ ∃ o, (o, y) ∈ s'.clones

namespace Visited

variable {s₁ s₂ s₃ : ComposerState}

theorem needsClone_eq (h : Visited s₁ s₂) {d : DeclId} (hd : d < s₁.module.decls.size) :
    (s₂.module.decl d).needsClone = (s₁.module.decl d).needsClone := by
  rw [← Decl.needsClone_core, h.core_eq d hd, Decl.needsClone_core]

/-- A visit keeps settled what was settled. -/
theorem settled (h : Visited s₁ s₂) {d : DeclId} (hd : s₁.module.Settled d) :
    s₂.module.Settled d :=
  Module.Settled.of_extends h.size_le (fun _ hx => h.needsClone_eq hx) h.nests hd

theorem refl (s : ComposerState) : Visited s s :=
  ⟨Nat.le_refl _, fun _ _ => rfl, fun _ _ _ h => .inl h, rfl, rfl, rfl, List.suffix_refl _,
    fun z _ h => .inl ⟨z, h⟩⟩

theorem trans (h₁ : Visited s₁ s₂) (h₂ : Visited s₂ s₃) : Visited s₁ s₃ where
  size_le := Nat.le_trans h₁.size_le h₂.size_le
  core_eq d hd := (h₂.core_eq d (Nat.lt_of_lt_of_le hd h₁.size_le)).trans (h₁.core_eq d hd)
  nests x hx y h := by
    rcases h₂.nests x (Nat.lt_of_lt_of_le hx h₁.size_le) y h with h | hy
    · rcases h₁.nests x hx y h with h | hy
      · exact .inl h
      · exact .inr (h₂.settled hy)
    · exact .inr hy
  containers_eq := h₂.containers_eq.trans h₁.containers_eq
  files_eq := h₂.files_eq.trans h₁.files_eq
  typeParams_eq := h₂.typeParams_eq.trans h₁.typeParams_eq
  clones_sub := h₁.clones_sub.trans h₂.clones_sub
  held z y h := by
    rcases h₂.held z y h with ⟨z', h'⟩ | ⟨o, ho⟩
    · rcases h₁.held z' y h' with hy | ⟨o, ho⟩
      · exact .inl hy
      · exact .inr ⟨o, h₂.clones_sub.subset ho⟩
    · exact .inr ⟨o, ho⟩

/-- A visit keeps a declaration settled, and keeps it a recorded clone. -/
theorem settled_or_clone (h : Visited s₁ s₂) {A : Prop} {y : DeclId}
    (hy : s₁.module.Settled y ∧ (A ∨ ∃ o, (o, y) ∈ s₁.clones)) :
    s₂.module.Settled y ∧ (A ∨ ∃ o, (o, y) ∈ s₂.clones) :=
  ⟨h.settled hy.1, hy.2.imp_right (Exists.imp fun _ ho => h.clones_sub.subset ho)⟩

end Visited

theorem Framed.visited {s s' : ComposerState} (h : Framed s s') : Visited s s' :=
  ⟨h.size_le, h.core_eq, fun x hx y hxy => .inl (h.nests_sub x hx y hxy), h.containers_eq,
    h.files_eq, h.typeParams_eq, h.clones_sub, fun z y hzy => .inl (h.held z y hzy)⟩

theorem Framed.steady {s s' : ComposerState} (h : Framed s s') (hs : Steady s) : Steady s' :=
  ⟨h.registered hs.1, h.fnsInArena hs.2⟩

/-- Visits as a preorder on the transformer's states. -/
def visiting : Growth ComposerState := ⟨Visited, Visited.refl, Visited.trans⟩

/-- The step `x`, run from a steady state satisfying `P`, ends when it succeeds in a steady
state that a visit reaches and that satisfies `Q` with the result, for every choice of
options. -/
def Visiting {α : Type} (P : ComposerState → Prop) (x : M α) (Q : α → ComposerState → Prop) :
    Prop :=
  ∀ opts, (sem opts).Triple visiting Steady P x Q

/-- The lowered form found for a declaration is the declaration itself or the clone recorded
for it. -/
theorem lowerDecl_answer {fuel : Nat} {d r : DeclId} {opts : LowerOptions} {s s' : ComposerState}
    (h : lowerDecl fuel d opts s = .ok (r, s')) : r = d ∨ (d, r) ∈ s'.clones := by
  rcases lowerDecl_eq_ok h with ⟨-, rfl, -⟩ | ⟨rfl, hcl⟩ | ⟨-, -, rfl, -⟩ | ⟨-, -, f, -, hrun⟩
  · exact .inl rfl
  · exact .inr hcl
  · exact .inl rfl
  · cases f with
    | zero =>
      rw [cloneWithComposer] at hrun
      exact absurd hrun throw_ne_ok
    | succ f => exact .inr (cloneWithComposer_framed (frameWalks f) hrun).2.1

/-- The lowered form of a declaration of the arena lies in the arena, needs no clone, and is
the declaration itself or the clone recorded for it. -/
theorem settles_lowerDecl (fuel : Nat) (d : DeclId) :
    Visiting (fun s => d < s.module.decls.size) (lowerDecl fuel d) fun r s =>
      r < s.module.decls.size ∧ (s.module.decl r).needsClone = false ∧
        (r = d ∨ (d, r) ∈ s.clones) := by
  intro opts s r s' h hI hd
  obtain ⟨-, hf, hq⟩ := (frameWalks fuel).lowerDecl d opts s r s' h trivial trivial
  have hI' := hf.steady hI
  obtain ⟨hlt, hn⟩ := hq hI'.1 (Nat.lt_of_lt_of_le hd hf.size_le)
  exact ⟨hI', hf.visited, hlt, hn, lowerDecl_answer h⟩

/-- Replacing the nested functions of an expression by visits that settle them, each returning
the function or a recorded clone, leaves an expression that holds only settled declarations,
each one the expression held or a recorded clone. -/
theorem settles_mapNestedM {g : DeclId → M DeclId}
    (hg : ∀ y, Visiting (fun s => y < s.module.decls.size) (g y) fun r s =>
      s.module.Settled r ∧ (r = y ∨ ∃ o, (o, r) ∈ s.clones))
    (e : Expr) :
    Visiting (fun s => ∀ y ∈ e.nestedFns, y < s.module.decls.size) (e.mapNestedM g)
      fun e' s => ∀ y ∈ e'.nestedFns,
        s.module.Settled y ∧ (y ∈ e.nestedFns ∨ ∃ o, (o, y) ∈ s.clones) := by
  intro opts
  have hchildren : (sem opts).Safe (fun _ => False) visiting Steady
      (fun s => ∀ y ∈ e.nestedFns, y < s.module.decls.size) (e.mapChildrenM (Expr.mapNestedM g) g)
      fun e' s => e'.callShape? = e.callShape? ∧
        (∀ c' ∈ e'.children, ∀ y ∈ c'.nestedFns,
          s.module.Settled y ∧ (y ∈ e.nestedFns ∨ ∃ o, (o, y) ∈ s.clones)) ∧
          ∀ d' ∈ e'.fnDecl?, s.module.Settled d' ∧ (d' ∈ e.nestedFns ∨ ∃ o, (o, d') ∈ s.clones) :=
    StepSemantics.Safe.mapChildrenM e (fun _ _ _ hv h y hy => hv.settled_or_clone (h y hy))
      (fun _ _ hv h y hy => Nat.lt_of_lt_of_le (h y hy) hv.size_le)
      (fun c hc => StepSemantics.Safe.of_triple ((settles_mapNestedM hg c opts).mono
        (fun _ h y hy => h y (Expr.nestedFns_subset_of_mem_children hc hy))
        fun _ _ h y hy => ⟨(h y hy).1,
          (h y hy).2.imp_left fun hy' => Expr.nestedFns_subset_of_mem_children hc hy'⟩)
        fun _ _ _ _ _ h => h)
      (fun d hd => StepSemantics.Safe.of_triple ((hg d opts).mono
        (fun _ h => h d (Expr.mem_nestedFns.2 (.inl hd)))
        fun r _ h => ⟨h.1, h.2.imp_left fun (hr : r = d) => hr ▸ Expr.mem_nestedFns.2 (.inl hd)⟩)
        fun _ _ _ _ _ h => h)
  rw [Expr.mapNestedM]
  exact hchildren.triple.mono (fun _ h => h) fun _ _ h => Expr.forall_nestedFns h.2.2 h.2.1
termination_by sizeOf e
decreasing_by exact Expr.sizeOf_lt_of_mem_children hc

/-- Putting back into a declaration, whose expressions were taken out before a visit, defaults
and a body that hold only settled declarations, each one held before or a recorded clone,
settles it, when it needs no clone; the whole is a visit from before the expressions were taken
out. -/
theorem visited_putExprs {S s : ComposerState} {d : DeclId} (xs : DeclExprs)
    (hv : Visited { S with module := (S.module.takeExprs d).1 } s) (hd : d < S.module.decls.size)
    (hn : (s.module.decl d).needsClone = false)
    (hnew : ∀ y, ((∃ o ∈ xs.defaults, ∃ e ∈ o, y ∈ e.nestedFns) ∨ ∃ e ∈ xs.body, y ∈ e.nestedFns) →
      s.module.Settled y ∧ ((∃ z, S.module.Nests z y) ∨ ∃ o, (o, y) ∈ s.clones))
    (hI : Steady s) :
    Steady { s with module := s.module.putExprs d xs } ∧
      Visited S { s with module := s.module.putExprs d xs } ∧ (s.module.putExprs d xs).Settled d := by
  have hf₀ := framed_takeExprs S d
  have hcore : ∀ x, ((s.module.putExprs d xs).decl x).core = (s.module.decl x).core :=
    fun x => core_putExprs s.module d x xs
  have hd₀ : d < (S.module.takeExprs d).1.decls.size := Nat.lt_of_lt_of_le hd hf₀.size_le
  -- what the declaration holds since it was taken out was put there settled
  have hold : ∀ y, s.module.Nests d y → s.module.Settled y := fun y hy =>
    (hv.nests d hd₀ y hy).resolve_left fun h => (Module.nests_takeExprs h).1 rfl
  have hlt : d < s.module.decls.size := Nat.lt_of_lt_of_le hd₀ hv.size_le
  have hsettled := fun x hx => Module.Settled.putExprs hlt hn hold (fun y hy => (hnew y hy).1)
    (x := x) hx
  have hsize : (s.module.putExprs d xs).decls.size = s.module.decls.size :=
    Module.decls_size_modifyDecl _ _ _
  refine ⟨⟨registered_of_core hcore hI.1, fun x y hxy => ?_⟩,
    ⟨hsize ▸ Nat.le_trans hf₀.size_le hv.size_le,
      fun x hx => (hcore x).trans ((hv.core_eq x (Nat.lt_of_lt_of_le hx hf₀.size_le)).trans
        (hf₀.core_eq x hx)),
      fun x hx y hxy => ?_, hv.containers_eq.trans hf₀.containers_eq,
      hv.files_eq.trans hf₀.files_eq, hv.typeParams_eq.trans hf₀.typeParams_eq,
      hf₀.clones_sub.trans hv.clones_sub, fun z y hzy => ?_⟩, hsettled d (.inr rfl)⟩
  · rcases Module.nests_putExprs hxy with ⟨-, hy⟩ | hxy
    · exact (hsettled y (.inl (hnew y hy).1)).lt_size
    · exact hsize.symm ▸ hI.2 x y hxy
  · rcases Module.nests_putExprs hxy with ⟨-, hy⟩ | hxy
    · exact .inr (hsettled y (.inl (hnew y hy).1))
    · rcases hv.nests x (Nat.lt_of_lt_of_le hx hf₀.size_le) y hxy with hxy | hy
      · exact .inl (hf₀.nests_sub x hx y hxy)
      · exact .inr (hsettled y (.inl hy))
  · rcases Module.nests_putExprs hzy with ⟨-, hy⟩ | hzy
    · exact (hnew y hy).2
    · rcases hv.held z y hzy with ⟨z', hz'⟩ | hclone
      · exact .inl (hf₀.held z' y hz')
      · exact .inr hclone

/-- Visiting the functions nested in a declaration that needs no clone, and putting back its
defaults and body, settles it. -/
theorem settles_mapExprs {g : DeclId → M DeclId}
    (hg : ∀ y, Visiting (fun s => y < s.module.decls.size) (g y) fun r s =>
      s.module.Settled r ∧ (r = y ∨ ∃ o, (o, r) ∈ s.clones))
    (d : DeclId) :
    Visiting (fun s => d < s.module.decls.size ∧ (s.module.decl d).needsClone = false)
      (mapExprs (Expr.mapNestedM g) d) fun _ s => s.module.Settled d := by
  intro opts s u s' h hI ⟨hd, hn⟩
  obtain ⟨defaults, s₃, body, s₄, h₃, h₄, rfl⟩ := mapExprs_eq_ok.1 h
  have hf₂ := framed_takeExprs s d
  -- each expression taken out holds only declarations of the arena, and is put back holding
  -- settled declarations, each one the declaration held or a recorded clone
  have hwalk : ∀ e ∈ (s.module.decl d).owned, Visiting
      (fun t => s.module.decls.size ≤ t.module.decls.size) (e.mapNestedM g)
      fun e' t => ∀ y ∈ e'.nestedFns,
        t.module.Settled y ∧ (s.module.Nests d y ∨ ∃ o, (o, y) ∈ t.clones) := fun e he opts =>
    (settles_mapNestedM hg e opts).mono (fun _ ht y hy => Nat.lt_of_lt_of_le
      (hI.2 d y (Decl.mem_nestedFns.2 ⟨e, he, hy⟩)) ht)
      fun _ _ h y hy => ⟨(h y hy).1, (h y hy).2.imp_left fun hy' => Decl.mem_nestedFns.2 ⟨e, he, hy'⟩⟩
  obtain ⟨hI₃, hv₃, hdefaults⟩ := StepSemantics.Triple.mapM (G := visiting) (I := Steady)
    (Q := fun _ (o : Option Expr) t => ∀ e ∈ o, ∀ y ∈ e.nestedFns,
      t.module.Settled y ∧ (s.module.Nests d y ∨ ∃ o, (o, y) ∈ t.clones))
    (fun _ _ _ _ hv h e he y hy => hv.settled_or_clone (h e he y hy))
    (fun _ _ hv h => Nat.le_trans h hv.size_le) _ (fun o ho =>
      (StepSemantics.Triple.option o fun e he =>
        hwalk e (Module.mem_owned_of_takeExprs_defaults ho he) opts).mono
          (fun _ h => h) fun _ _ h => h.2) _ defaults s₃ h₃ (hf₂.steady hI) hf₂.size_le
  obtain ⟨hI₄, hv₄, -, hbody⟩ := StepSemantics.Triple.option _ (fun e he =>
    hwalk e (Module.mem_owned_of_takeExprs_body he) opts) s₃ body s₄ h₄ hI₃
    (Nat.le_trans hf₂.size_le hv₃.size_le)
  have hv : Visited s s₄ := hf₂.visited.trans (hv₃.trans hv₄)
  have hheld : ∀ {A : Prop} {y : DeclId}, s₄.module.Settled y ∧ (A ∨ ∃ o, (o, y) ∈ s₄.clones) →
      (A → ∃ z, s.module.Nests z y) →
        s₄.module.Settled y ∧ ((∃ z, s.module.Nests z y) ∨ ∃ o, (o, y) ∈ s₄.clones) :=
    fun h hA => ⟨h.1, h.2.imp_left hA⟩
  obtain ⟨hI₅, hv₅, hsettled⟩ := visited_putExprs ⟨defaults, body⟩ (hv₃.trans hv₄) hd
    ((hv.needsClone_eq hd).trans hn) (fun y hy => by
      rcases hy with ⟨o, ho, e, he, hy⟩ | ⟨e, he, hy⟩
      · exact hheld (hv₄.settled_or_clone (forall_mem_of_forall₂ hdefaults o ho e he y hy))
          fun h => ⟨d, h⟩
      · exact hheld (hbody e he y hy) fun h => ⟨d, h⟩) hI₄
  exact ⟨hI₅, hv₅, hsettled⟩

/-- A visit of a declaration of the arena, at any fuel, returns a settled declaration: the
declaration itself or a recorded clone of it. -/
theorem settles_visitDecl : ∀ fuel d,
    Visiting (fun s => d < s.module.decls.size) (visitDecl fuel d) fun r s =>
      s.module.Settled r ∧ (r = d ∨ ∃ o, (o, r) ∈ s.clones)
  | 0, _ => by
    rw [visitDecl]
    exact fun _ => StepSemantics.Triple.of_fails fun _ _ _ h => nomatch h
  | fuel + 1, d => by
    intro opts
    rw [visitDecl]
    refine StepSemantics.Triple.bind (settles_lowerDecl fuel d opts) fun r => ?_
    -- whether the answer is a clone is read off the records, which only grow
    have hkeep : visiting.Persists fun s => r = d ∨ ∃ o, (o, r) ∈ s.clones :=
      fun _ _ hv h => h.imp_right (Exists.imp fun _ ho => hv.clones_sub.subset ho)
    refine StepSemantics.Triple.bind (((settles_mapExprs (settles_visitDecl fuel) r opts).frame
      hkeep).mono (fun _ h => ⟨⟨h.1, h.2.1⟩, h.2.2.imp_right fun h => ⟨d, h⟩⟩) fun _ _ h => h)
      fun _ => ?_
    exact StepSemantics.Triple.pure r fun _ h => h

/-! ## The loops over containers and members -/

theorem steady_reparented {s : ComposerState} {m' : Module} (h : s.module.Reparented m')
    (hs : Steady s) : Steady { s with module := m' } := by
  have hcomposer : ∀ d, (m'.decl d).hasComposer = (s.module.decl d).hasComposer :=
    h.congr (f := Decl.hasComposer) fun _ => rfl
  refine ⟨⟨fun d hd => ?_, fun p hp => ?_⟩, fun x y hxy => ?_⟩
  · exact (hcomposer d).trans (hs.1.lowered d hd)
  · exact (hcomposer p.2).trans (hs.1.clones p hp)
  · exact h.size_eq ▸ hs.2 x y (h.nests_iff.1 hxy)

/-- A fresh transformer has registered nothing. -/
theorem steady_start {m : Module} (h : m.FnsInArena) : Steady { module := m } :=
  ⟨⟨fun _ hd => (nomatch hd), fun _ hp => (nomatch hp)⟩, h⟩

theorem getModule_triple (opts : LowerOptions) {G : Growth ComposerState}
    {I P : ComposerState → Prop} :
    (sem opts).Triple G I P getModule fun m s => m = s.module ∧ P s := by
  intro s m s' h hI hP
  cases h
  exact ⟨hI, G.refl s, rfl, hP⟩

/-- Part way through the containers `cs`, with `todo` still to run: the containers in order
are still `cs`, every container lists only declarations of the arena, and every container of
`cs` not still to run lists only settled declarations. -/
structure Swept (cs todo : List ContainerId) (m : Module) : Prop where
  order_eq : m.containersInOrder = cs
  members_lt : ∀ c, ∀ x ∈ (m.container c).members, x < m.decls.size
  settled : ∀ c ∈ cs, c ∉ todo → ∀ x ∈ (m.container c).members, m.Settled x

/-- Part way through the members of the container `c`, with `rest` still to visit: besides
what `Swept` says, `c` lists only settled declarations and members still to visit, which lie in
the arena. -/
structure SweptIn (cs todo : List ContainerId) (c : ContainerId) (rest : List DeclId)
    (m : Module) : Prop extends Swept cs (c :: todo) m where
  current : ∀ x ∈ (m.container c).members, m.Settled x ∨ x ∈ rest
  rest_lt : ∀ x ∈ rest, x < m.decls.size

variable {cs todo : List ContainerId} {c : ContainerId} {rest : List DeclId}

theorem Swept.visited {s s' : ComposerState} (h : Swept cs todo s.module) (hv : Visited s s') :
    Swept cs todo s'.module := by
  have hcont : ∀ c, s'.module.container c = s.module.container c := fun c => by
    rw [Module.container, Module.container, hv.containers_eq]
  refine ⟨?_, fun c x hx => ?_, fun c hc hto x hx => ?_⟩
  · rw [Module.containersInOrder_congr hv.files_eq (by rw [hv.containers_eq])
      fun c => by rw [hcont], h.order_eq]
  · exact Nat.lt_of_lt_of_le (h.members_lt c x (hcont c ▸ hx)) hv.size_le
  · exact hv.settled (h.settled c hc hto x (hcont c ▸ hx))

theorem SweptIn.visited {s s' : ComposerState} (h : SweptIn cs todo c rest s.module)
    (hv : Visited s s') : SweptIn cs todo c rest s'.module := by
  have hcont : s'.module.container c = s.module.container c := by
    rw [Module.container, Module.container, hv.containers_eq]
  refine ⟨h.toSwept.visited hv, fun x hx => ?_, fun x hx => ?_⟩
  · exact (h.current x (hcont ▸ hx)).imp hv.settled id
  · exact Nat.lt_of_lt_of_le (h.rest_lt x hx) hv.size_le

theorem SweptIn.start {m : Module} (h : Swept cs (c :: todo) m) :
    SweptIn cs todo c (m.container c).members m :=
  ⟨h, fun _ hx => .inr hx, h.members_lt c⟩

/-- A member that needs no replacing leaves the container as it is. -/
theorem SweptIn.next {m : Module} {x : DeclId} (h : SweptIn cs todo c (x :: rest) m)
    (hx : m.Settled x) : SweptIn cs todo c rest m := by
  refine ⟨h.toSwept, fun y hy => ?_, fun y hy => h.rest_lt y (List.mem_cons_of_mem x hy)⟩
  rcases h.current y hy with hy | hy
  · exact .inl hy
  · rcases List.mem_cons.1 hy with rfl | hy
    · exact .inl hx
    · exact .inr hy

/-- Replacing a member by a settled declaration leaves the container listing settled
declarations and members still to visit. -/
theorem SweptIn.replace {m : Module} {x r : DeclId} (h : SweptIn cs todo c (x :: rest) m)
    (hr : m.Settled r) : SweptIn cs todo c rest (m.replaceMember c x r) := by
  have hre := Module.reparented_replaceMember (m := m) c x r
  have hsize := Module.decls_size_replaceMember m c x r
  refine ⟨⟨(Module.containersInOrder_replaceMember m c x r).trans h.order_eq,
    fun c' y hy => ?_, fun c' hc' hto y hy => ?_⟩, fun y hy => ?_, fun y hy => ?_⟩
  · rcases Module.mem_members_replaceMember hy with ⟨-, rfl⟩ | ⟨hy, -⟩
    · exact hsize ▸ hr.lt_size
    · exact hsize ▸ h.members_lt c' y hy
  · rcases Module.mem_members_replaceMember hy with ⟨rfl, -⟩ | ⟨hy, -⟩
    · exact absurd List.mem_cons_self hto
    · exact Module.Settled.of_reparented hre (h.settled c' hc' hto y hy)
  · rcases Module.mem_members_replaceMember hy with ⟨-, rfl⟩ | ⟨hy, hne⟩
    · exact .inl (Module.Settled.of_reparented hre hr)
    · rcases h.current y hy with hy | hy
      · exact .inl (Module.Settled.of_reparented hre hy)
      · exact .inr ((List.mem_cons.1 hy).resolve_left (hne rfl))
  · exact hsize ▸ h.rest_lt y (List.mem_cons_of_mem x hy)

/-- Once its last member is visited, a container lists only settled declarations. -/
theorem SweptIn.finish {m : Module} (h : SweptIn cs todo c [] m) : Swept cs todo m := by
  refine ⟨h.order_eq, h.members_lt, fun c' hc' hto x hx => ?_⟩
  by_cases hcc : c' = c
  · subst hcc
    exact (h.current x hx).resolve_right List.not_mem_nil
  · exact h.settled c' hc' (by simp [hcc, hto]) x hx

/-- Recomputing the parents keeps the containers and what is settled. -/
theorem Swept.patchParents {m : Module} (h : Swept cs todo m) : Swept cs todo m.patchParents := by
  have hre := Module.reparented_patchParents (m := m)
  have hcont : ∀ c, m.patchParents.container c = m.container c := fun c => by
    rw [Module.container, Module.container, Module.containers_patchParents]
  refine ⟨?_, fun c x hx => ?_, fun c hc hto x hx => ?_⟩
  · rw [Module.containersInOrder_congr (Module.files_patchParents m)
      (by rw [Module.containers_patchParents]) fun c => by rw [hcont], h.order_eq]
  · exact hre.size_eq ▸ h.members_lt c x (hcont c ▸ hx)
  · exact Module.Settled.of_reparented hre (h.settled c hc hto x (hcont c ▸ hx))

end Composer

namespace StepSemantics

variable {m : Type → Type} [Monad m] {σ ε α γ : Type} {S : StepSemantics m σ ε} {G : Growth σ}
  {I : σ → Prop}

/-- A loop each of whose iterations continues, from the invariant at the items still to run, to
the invariant at the items after it, ends in the invariant at no items. -/
theorem Triple.forIn_suffix {f : α → γ → m (ForInStep γ)} (P : List α → σ → Prop)
    (hf : ∀ a rest b, S.Triple G I (P (a :: rest)) (f a b)
      fun r s => (∃ b', r = .yield b') ∧ P rest s) :
    ∀ (xs : List α) (b : γ), S.Triple G I (P xs) (ForIn.forIn xs b f) fun _ s => P [] s
  | [], b => Triple.pure b fun _ h => h
  | a :: xs, b => by
    rw [List.forIn_cons]
    refine Triple.bind (hf a xs b) fun r => ?_
    cases r with
    | done b' =>
      intro _ _ _ _ _ hP
      obtain ⟨⟨_, h⟩, -⟩ := hP
      cases h
    | yield b' => exact (Triple.forIn_suffix P hf xs b').mono (fun _ h => h.2) fun _ _ h => h

end StepSemantics

namespace Composer

/-- A run over a module whose containers list only declarations of the arena leaves every
member of every container settled, with the parents recomputed. -/
theorem sweeps_lowerModule (opts : LowerOptions) :
    (sem opts).Triple (Growth.any _) Steady
      (fun s => ∀ c, ∀ x ∈ (s.module.container c).members, x < s.module.decls.size) lowerModule
      fun _ s => Swept s.module.containersInOrder [] s.module ∧
        ∃ m' : Module, s.module = m'.patchParents := by
  unfold lowerModule
  refine StepSemantics.Triple.bind (getModule_triple opts) fun m => ?_
  refine StepSemantics.Triple.bind (Q := fun _ s => Swept m.containersInOrder [] s.module) ?_
    fun _ => ?_
  · refine (StepSemantics.Triple.forIn_suffix (fun todo s => Swept m.containersInOrder todo s.module)
      (fun c todo b => ?_) _ _).mono (fun s h => ⟨h.1 ▸ rfl, h.2, fun _ hc hto => absurd hc hto⟩)
      fun _ _ h => h
    refine StepSemantics.Triple.bind (getModule_triple opts) fun m' => ?_
    refine StepSemantics.Triple.bind (Q := fun _ s => SweptIn m.containersInOrder todo c [] s.module)
      ((StepSemantics.Triple.forIn_suffix
        (fun rest s => SweptIn m.containersInOrder todo c rest s.module) (fun x rest b => ?_) _ _).mono
          (fun s h => by rw [h.1]; exact SweptIn.start h.2) fun _ _ h => h)
      fun _ => StepSemantics.Triple.pure _ fun _ h => ⟨⟨_, rfl⟩, h.finish⟩
    -- one member: visit it, and put what the visit returns in its place
    intro s r s' h hI hP
    change (visitDecl _ x >>= _) opts s = .ok (r, s') at h
    obtain ⟨new, s₁, h₁, h⟩ := bind_ok h
    obtain ⟨hI₁, hv, hnew, -⟩ := settles_visitDecl (fuelFor m) x opts s new s₁ h₁ hI
      (hP.rest_lt x List.mem_cons_self)
    have hP₁ := hP.visited hv
    split at h
    · obtain ⟨u, s₂, h₂, h⟩ := bind_ok h
      cases h
      rw [modifyModule_ok h₂]
      exact ⟨steady_reparented (Module.reparented_replaceMember c x new) hI₁, trivial, ⟨_, rfl⟩,
        hP₁.replace hnew⟩
    · rename_i hsame
      cases h
      exact ⟨hI₁, trivial, ⟨_, rfl⟩, hP₁.next (not_not.1 hsame ▸ hnew)⟩
  · intro s u s' h hI hP
    rw [modifyModule_ok h]
    refine ⟨steady_reparented Module.reparented_patchParents hI, trivial, ?_, _, rfl⟩
    exact hP.patchParents.order_eq ▸ hP.patchParents

/-- A successful run over a module in the arena leaves every member of every container settled,
in a module whose parents were recomputed. -/
theorem run_settles {opts : LowerOptions} {m : Module} {s : ComposerState} (hm : m.InArena)
    (h : run opts m = .ok s) :
    Swept s.module.containersInOrder [] s.module ∧ ∃ m' : Module, s.module = m'.patchParents := by
  unfold run at h
  cases hrun : lowerModule opts { module := m } with
  | error e =>
    rw [ReaderT.run, StateT.run, hrun] at h
    cases h
  | ok r =>
    rw [ReaderT.run, StateT.run, hrun] at h
    cases h
    exact (sweeps_lowerModule opts _ _ _ hrun (steady_start hm.fns) hm.members_lt).2.2

end Composer

end ComposeLowering
