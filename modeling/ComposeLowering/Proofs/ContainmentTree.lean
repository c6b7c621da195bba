import Mathlib
import ComposeLowering.Proofs.Parents
import ComposeLowering.Proofs.Decoy.Substitute

/-!
# Parent links are the containment tree

The containers reached from the files of a module list their member declarations, and every
declaration holds the lambdas and local functions of its `fn` nodes. When the members lie in
the arena, nothing is nested in itself, every declaration has one place at most and no
container is reached twice, this containment is a forest (`Module.ContainmentForest`). Its
declarations are those of `Module.InTree`: the members of the reached containers, and whatever
a declaration of the tree holds.

`Module.patchParents` forgets every parent and then walks the forest: each member gets its
container, and each declaration below it the declaration that holds it. The main theorem,
`Module.patchParents_followsTree`, says that afterwards the parents are exactly the forest:

* a declaration's parent is a container exactly when that reached container lists it, and a
  declaration exactly when that declaration holds it and is attached itself;
* the declarations outside the tree are detached;
* `reachableDecls` lists each attached declaration once, before the declarations it holds;
* `containerOf` finds the container whose member has the declaration in its tree, and nothing
  for a detached declaration.

## The walk

Every step of the walk sets the parent of one declaration to what the forest gives it: the
container of a member, or a declaration of the tree that holds it (`Module.parent_patchNested`,
`Module.parent_visitMember`). So at every point of the walk each parent is `Placed`: detached,
or where the forest puts it (`Module.WalkInv`). Every declaration of the tree is reached by the visit of the member at
its root, and no later step detaches it again. Where each declaration has one place, the forest
puts it in one place only (`Module.holder_unique`, `Module.member_unique_of_places`), and the
parents are determined.

## The list

The nesting has a rank (`Module.NestRanking`) and the depth bound of `subtreeDecls` lies above
it, so a subtree lists exactly what lies below its root (`Module.mem_subtreeDecls_iff`). Where
holders are unique, two declarations above a third are one above the other
(`Module.reflTransGen_total`), so the subtrees of different roots are disjoint and the list has
no repeats.
-/

namespace ComposeLowering

/-- The list a joined list takes from one of its entries lies in it, in order. -/
theorem List.sublist_flatMap_of_mem {α β : Type} {f : α → List β} {l : List α} {a : α}
    (ha : a ∈ l) : (f a).Sublist (l.flatMap f) := by
  rw [List.flatMap_def]
  exact List.sublist_flatten_of_mem (List.mem_map_of_mem ha)

namespace Module

variable {m : Module}

/-! ## The containment forest -/

/-- The declarations of the containment tree: the members of the containers reached from the
files, and every declaration that a declaration of the tree holds. -/
inductive InTree (m : Module) : DeclId → Prop
  | member {c : ContainerId} {d : DeclId} : c ∈ m.containersInOrder →
      d ∈ (m.container c).members → InTree m d
  | nested {o d : DeclId} : InTree m o → m.Nests o d → InTree m d

/-- The containment of a module is a forest: members and nested declarations lie in the arena,
and each declaration hangs in one place at most, never below itself. -/
structure ContainmentForest (m : Module) : Prop where
  /-- Every member lies in the arena. -/
  members_lt : ∀ c, ∀ d ∈ (m.container c).members, d < m.decls.size
  /-- Every `fn` node holds a declaration of the arena, and nothing is nested in itself. -/
  nesting : m.AcyclicNesting
  /-- A declaration is listed by one container or held by one `fn` node, at most. -/
  places_le_one : ∀ d, m.places d ≤ 1
  /-- No container is reached twice from the files. -/
  containers_nodup : m.containersInOrder.Nodup

/-- Below a declaration of the tree lies only the tree. -/
theorem InTree.of_reflTransGen {x d : DeclId} (hx : m.InTree x)
    (hxd : Relation.ReflTransGen m.Nests x d) : m.InTree d := by
  induction hxd with
  | refl => exact hx
  | tail _ hod ih => exact .nested ih hod

/-- A declaration lies in the tree exactly when it lies below a member of a reached
container. -/
theorem inTree_iff {d : DeclId} : m.InTree d ↔ ∃ c ∈ m.containersInOrder,
    ∃ x ∈ (m.container c).members, Relation.ReflTransGen m.Nests x d := by
  constructor
  · intro h
    induction h with
    | member hc hd => exact ⟨_, hc, _, hd, .refl⟩
    | nested _ hod ih =>
      obtain ⟨c, hc, x, hx, hxo⟩ := ih
      exact ⟨c, hc, x, hx, hxo.tail hod⟩
  · rintro ⟨c, hc, x, hx, hxd⟩
    exact InTree.of_reflTransGen (.member hc hx) hxd

/-! ## Chains of holders -/

section Holders

variable (hholder : ∀ {o o' d : DeclId}, m.Nests o d → m.Nests o' d → o = o')
include hholder

/-- Where every declaration has one holder at most, two declarations above a third are one above
the other. -/
theorem reflTransGen_total {a b d : DeclId} (had : Relation.ReflTransGen m.Nests a d)
    (hbd : Relation.ReflTransGen m.Nests b d) :
    Relation.ReflTransGen m.Nests a b ∨ Relation.ReflTransGen m.Nests b a := by
  induction had generalizing b with
  | refl => exact .inr hbd
  | tail hao hod ih =>
    rcases Relation.ReflTransGen.cases_tail hbd with rfl | ⟨o', hbo', ho'd⟩
    · exact .inl (hao.tail hod)
    · exact ih (hholder ho'd hod ▸ hbo')

/-- Two declarations held by one declaration, with a third below both, are one: otherwise one
lies below the other, and the holder below itself. -/
theorem eq_of_below_siblings (hacyclic : ∀ d, ¬ Relation.TransGen m.Nests d d) {o n n' d : DeclId}
    (hn : m.Nests o n) (hn' : m.Nests o n') (hnd : Relation.ReflTransGen m.Nests n d)
    (hn'd : Relation.ReflTransGen m.Nests n' d) : n = n' := by
  -- a sibling strictly below the other would put the holder below itself
  have hbelow : ∀ {a b}, m.Nests o a → m.Nests o b → Relation.TransGen m.Nests a b → False := by
    intro a b ha hb hab
    obtain ⟨p, hap, hpb⟩ := Relation.TransGen.tail'_iff.1 hab
    have hpo : p = o := hholder hpb hb
    subst hpo
    exact hacyclic p (Relation.TransGen.head' ha hap)
  rcases reflTransGen_total hholder hnd hn'd with h | h
  · rcases Relation.reflTransGen_iff_eq_or_transGen.1 h with h | h
    · exact h.symm
    · exact (hbelow hn hn' h).elim
  · rcases Relation.reflTransGen_iff_eq_or_transGen.1 h with h | h
    · exact h
    · exact (hbelow hn' hn h).elim

end Holders

/-- Two members of reached containers with a declaration below both are one member of one
container: members have no holder, so neither lies strictly below the other. -/
theorem root_unique (hplaces : ∀ d, m.places d ≤ 1) {c c' : ContainerId} {x x' d : DeclId}
    (hx : x ∈ (m.container c).members) (hx' : x' ∈ (m.container c').members)
    (hxd : Relation.ReflTransGen m.Nests x d) (hx'd : Relation.ReflTransGen m.Nests x' d) :
    x = x' ∧ c = c' := by
  -- a member strictly below another would have a holder
  have hheld : ∀ {a b : DeclId} {k : ContainerId}, b ∈ (m.container k).members →
      Relation.ReflTransGen m.Nests a b → b = a := by
    intro a b k hb hab
    rcases Relation.reflTransGen_iff_eq_or_transGen.1 hab with h | h
    · exact h
    · obtain ⟨p, -, hpb⟩ := Relation.TransGen.tail'_iff.1 h
      exact (not_nests_member hplaces hb p hpb).elim
  have hxx' : x = x' := by
    rcases reflTransGen_total (holder_unique hplaces) hxd hx'd with h | h
    · exact (hheld hx' h).symm
    · exact hheld hx h
  subst hxx'
  exact ⟨rfl, member_unique_of_places hplaces hx hx'⟩

/-! ## Subtrees -/

/-- What a subtree lists lies below its root. -/
theorem reflTransGen_of_mem_subtreeDecls {f : Nat} : ∀ {x d : DeclId},
    d ∈ m.subtreeDecls f x → Relation.ReflTransGen m.Nests x d := by
  induction f with
  | zero =>
    intro x d h
    rw [subtreeDecls] at h
    exact absurd h List.not_mem_nil
  | succ f ih =>
    intro x d h
    rw [subtreeDecls, List.mem_cons, List.mem_flatMap] at h
    rcases h with rfl | ⟨n, hn, hd⟩
    · exact .refl
    · exact .head hn (ih hd)

/-- A subtree whose depth bound lies above the rank of its root lists everything below the
root. -/
theorem mem_subtreeDecls_of_reflTransGen {ρ : DeclId → Nat} (hρ : m.NestRanking ρ)
    {x d : DeclId} (hxd : Relation.ReflTransGen m.Nests x d) :
    ∀ {f : Nat}, ρ x < f → d ∈ m.subtreeDecls f x := by
  induction hxd using Relation.ReflTransGen.head_induction_on with
  | refl =>
    intro f hf
    cases f with
    | zero => omega
    | succ f =>
      rw [subtreeDecls]
      exact List.mem_cons_self
  | head hxn _ ih =>
    intro f hf
    have hrank := hρ.rank_lt _ _ hxn
    cases f with
    | zero => omega
    | succ f =>
      rw [subtreeDecls]
      exact List.mem_cons_of_mem _ (List.mem_flatMap.2 ⟨_, hxn, ih (by omega)⟩)

theorem mem_subtreeDecls_iff {ρ : DeclId → Nat} (hρ : m.NestRanking ρ) {f : Nat} {x d : DeclId}
    (hf : ρ x < f) : d ∈ m.subtreeDecls f x ↔ Relation.ReflTransGen m.Nests x d :=
  ⟨reflTransGen_of_mem_subtreeDecls, fun h => mem_subtreeDecls_of_reflTransGen hρ h hf⟩

/-- A subtree lists a declaration of it before each declaration that one holds. -/
theorem pair_sublist_subtreeDecls {ρ : DeclId → Nat} (hρ : m.NestRanking ρ) {x o d : DeclId}
    (hxo : Relation.ReflTransGen m.Nests x o) (hod : m.Nests o d) :
    ∀ {f : Nat}, ρ x < f → [o, d].Sublist (m.subtreeDecls f x) := by
  induction hxo using Relation.ReflTransGen.head_induction_on with
  | refl =>
    intro f hf
    have hrank := hρ.rank_lt _ _ hod
    cases f with
    | zero => omega
    | succ f =>
      rw [subtreeDecls]
      have hd : d ∈ m.subtreeDecls f d := mem_subtreeDecls_of_reflTransGen hρ .refl (by omega)
      exact (List.singleton_sublist.2 (List.mem_flatMap.2 ⟨d, hod, hd⟩)).cons_cons o
  | head hxn _ ih =>
    intro f hf
    have hrank := hρ.rank_lt _ _ hxn
    cases f with
    | zero => omega
    | succ f =>
      rw [subtreeDecls]
      exact (ih (by omega)).trans ((List.sublist_flatMap_of_mem hxn).trans
        (List.sublist_cons_self _ _))

/-- Where every declaration has one place at most, a subtree lists each declaration once. -/
theorem nodup_subtreeDecls (hplaces : ∀ d, m.places d ≤ 1)
    (hacyclic : ∀ d, ¬ Relation.TransGen m.Nests d d) (f : Nat) :
    ∀ x, (m.subtreeDecls f x).Nodup := by
  induction f with
  | zero =>
    intro x
    rw [subtreeDecls]
    exact List.nodup_nil
  | succ f ih =>
    intro x
    rw [subtreeDecls]
    refine List.Nodup.cons ?_ (List.nodup_flatMap.2 ⟨fun n _ => ih n, ?_⟩)
    · -- the root does not lie strictly below itself
      intro hx
      obtain ⟨n, hn, hxn⟩ := List.mem_flatMap.1 hx
      exact hacyclic x (Relation.TransGen.head' hn (reflTransGen_of_mem_subtreeDecls hxn))
    · -- the subtrees of two declarations the root holds are disjoint
      refine (nodup_nestedDecls hplaces x).pairwise_of_forall_ne fun n hn n' hn' hne => ?_
      intro d hd hd'
      exact hne (eq_of_below_siblings (holder_unique hplaces) hacyclic hn hn'
        (reflTransGen_of_mem_subtreeDecls hd) (reflTransGen_of_mem_subtreeDecls hd'))

/-! ## The reachable declarations -/

/-- The reachable declarations are the declarations of the tree. -/
theorem mem_reachableDecls_iff (hn : m.AcyclicNesting) {d : DeclId} :
    d ∈ m.reachableDecls ↔ m.InTree d := by
  have hsub : ∀ x, d ∈ m.subtreeDecls (m.decls.size + 1) x ↔
      Relation.ReflTransGen m.Nests x d :=
    fun x => mem_subtreeDecls_iff hn.nestRanking (Nat.lt_succ_of_le (m.nestRank_le x))
  simp only [reachableDecls, List.mem_flatMap, hsub, inTree_iff]

/-- In a forest the reachable declarations have no repeats: two members' subtrees, in one
container or in two, share nothing. -/
theorem nodup_reachableDecls (hm : m.ContainmentForest) : m.reachableDecls.Nodup := by
  have hplaces := hm.places_le_one
  have hsub := nodup_subtreeDecls hplaces hm.nesting.acyclic (m.decls.size + 1)
  rw [reachableDecls]
  refine List.nodup_flatMap.2 ⟨fun c _ => ?_, ?_⟩
  · refine List.nodup_flatMap.2 ⟨fun x _ => hsub x,
      (nodup_members hplaces c).pairwise_of_forall_ne fun x hx x' hx' hne => ?_⟩
    intro d hd hd'
    exact hne (root_unique hplaces hx hx' (reflTransGen_of_mem_subtreeDecls hd)
      (reflTransGen_of_mem_subtreeDecls hd')).1
  · refine hm.containers_nodup.pairwise_of_forall_ne fun c _ c' _ hne => ?_
    intro d hd hd'
    obtain ⟨x, hx, hxd⟩ := List.mem_flatMap.1 hd
    obtain ⟨x', hx', hx'd⟩ := List.mem_flatMap.1 hd'
    exact hne (root_unique hplaces hx hx' (reflTransGen_of_mem_subtreeDecls hxd)
      (reflTransGen_of_mem_subtreeDecls hx'd)).2

/-- The reachable declarations list a declaration before each declaration it holds. -/
theorem pair_sublist_reachableDecls (hn : m.AcyclicNesting) {o d : DeclId} (hod : m.Nests o d)
    (ho : o ∈ m.reachableDecls) : [o, d].Sublist m.reachableDecls := by
  obtain ⟨c, hc, x, hx, hxo⟩ := inTree_iff.1 ((mem_reachableDecls_iff hn).1 ho)
  have hsub := pair_sublist_subtreeDecls hn.nestRanking hxo hod
    (Nat.lt_succ_of_le (m.nestRank_le x))
  rw [reachableDecls]
  exact hsub.trans ((List.sublist_flatMap_of_mem hx).trans (List.sublist_flatMap_of_mem
    (f := fun c => (m.container c).members.flatMap (m.subtreeDecls (m.decls.size + 1))) hc))

/-! ## The walk -/

/-- Where the forest may put a declaration: nowhere, in a reached container that lists it, or
below a declaration of the tree that holds it. -/
def Placed (m : Module) (d : DeclId) : Parent → Prop
  | .detached => True
  | .container c => c ∈ m.containersInOrder ∧ d ∈ (m.container c).members
  | .decl o => m.Nests o d ∧ m.InTree o

/-- A declaration placed somewhere lies in the tree. -/
theorem Placed.inTree {d : DeclId} {p : Parent} (h : m.Placed d p) (hp : p ≠ .detached) :
    m.InTree d := by
  cases p with
  | detached => exact absurd rfl hp
  | container c => exact .member h.1 h.2
  | decl o => exact .nested h.2 h.1

/-- The parent `p` of `d` is a declaration at or below `x` that holds `d`. -/
def HeldBelow (m : Module) (x d : DeclId) (p : Parent) : Prop :=
  ∃ o, Relation.ReflTransGen m.Nests x o ∧ m.Nests o d ∧ p = .decl o

theorem HeldBelow.head {x n d : DeclId} {p : Parent} (hxn : m.Nests x n)
    (h : m.HeldBelow n d p) : m.HeldBelow x d p := by
  obtain ⟨o, hno, hod, hp⟩ := h
  exact ⟨o, .head hxn hno, hod, hp⟩

theorem parent_setParent (M : Module) (n d : DeclId) (p : Parent) :
    ((M.modifyDecl n fun x => { x with parent := p }).decl d).parent =
      if n = d ∧ d < M.decls.size then p else (M.decl d).parent := by
  rw [decl_modifyDecl]
  split <;> rfl

/-- Making `outer` the parent of a declaration `n` of the arena that it holds changes parents
only. It keeps the parent of `d`, or makes it `outer`, which holds `d`; for `n = d` it does the
latter. -/
theorem parent_setHolder {outer n : DeclId} (hn : m.Nests outer n) (hlt : n < m.decls.size)
    (d : DeclId) (M : Module) (hM : M.detached = m.detached) :
    (M.modifyDecl n fun x => { x with parent := .decl outer }).detached = m.detached ∧
    (((M.modifyDecl n fun x => { x with parent := .decl outer }).decl d).parent =
        (M.decl d).parent ∨
      m.HeldBelow outer d
        ((M.modifyDecl n fun x => { x with parent := .decl outer }).decl d).parent) ∧
    (n = d →
      m.HeldBelow outer d
        ((M.modifyDecl n fun x => { x with parent := .decl outer }).decl d).parent) := by
  refine ⟨(detached_modifyDecl (f := fun x => { x with parent := .decl outer }) (fun _ => rfl)
    M n).trans hM, ?_, ?_⟩
  · rw [parent_setParent]
    split
    · next h => exact .inr ⟨outer, .refl, h.1 ▸ hn, rfl⟩
    · exact .inl rfl
  · rintro rfl
    rw [parent_setParent, if_pos ⟨rfl, (size_eq_of_detached hM).symm ▸ hlt⟩]
    exact ⟨outer, .refl, hn, rfl⟩

/-- Making `outer` the parent of what it holds, downwards, changes parents only. It keeps the
parent of `d` or makes it a declaration at or below `outer` that holds `d`, and does the latter
for every `d` below `outer` when the depth bound lies above the rank of `outer`. -/
theorem parent_patchNested {ρ : DeclId → Nat} (hρ : m.NestRanking ρ) (d : DeclId) (fuel : Nat) :
    ∀ (M : Module) (outer : DeclId), M.detached = m.detached →
      (M.patchNested fuel outer).detached = m.detached ∧
      (((M.patchNested fuel outer).decl d).parent = (M.decl d).parent ∨
        m.HeldBelow outer d ((M.patchNested fuel outer).decl d).parent) ∧
      (Relation.TransGen m.Nests outer d → ρ outer < fuel →
        m.HeldBelow outer d ((M.patchNested fuel outer).decl d).parent) := by
  induction fuel with
  | zero =>
    intro M outer hM
    exact ⟨hM, .inl rfl, fun _ h => absurd h (Nat.not_lt_zero _)⟩
  | succ fuel ih =>
    intro M outer hM
    rw [patchNested]
    have hnested : M.nestedDecls outer = m.nestedDecls outer := nestedDecls_eq_of_detached hM outer
    -- first `outer` becomes the parent of each declaration it holds
    have hset : ∀ (M' : Module) (n : DeclId), n ∈ M.nestedDecls outer → M'.detached = m.detached →
        (M'.modifyDecl n fun x => { x with parent := .decl outer }).detached = m.detached ∧
        (((M'.modifyDecl n fun x => { x with parent := .decl outer }).decl d).parent =
            (M'.decl d).parent ∨
          m.HeldBelow outer d
            ((M'.modifyDecl n fun x => { x with parent := .decl outer }).decl d).parent) := by
      intro M' n hn hM'
      rw [hnested] at hn
      exact (parent_setHolder hn (hρ.nested_lt _ _ hn) d M' hM').imp_right And.left
    -- then each of them passes down what it holds, the last one first
    have hpass : ∀ (M' : Module) (n : DeclId), n ∈ (M.nestedDecls outer).reverse →
        M'.detached = m.detached →
        (M'.patchNested fuel n).detached = m.detached ∧
        (((M'.patchNested fuel n).decl d).parent = (M'.decl d).parent ∨
          m.HeldBelow outer d ((M'.patchNested fuel n).decl d).parent) := by
      intro M' n hn hM'
      have hxn : n ∈ m.nestedDecls outer := by
        rw [← hnested]
        exact List.mem_reverse.1 hn
      obtain ⟨hdet, hkeep, -⟩ := ih M' n hM'
      exact ⟨hdet, hkeep.imp_right (HeldBelow.head hxn)⟩
    obtain ⟨hM₁, hkeep₁⟩ := foldl_keeps_or (fun M' : Module => M'.detached = m.detached)
      (fun M' => (M'.decl d).parent) (m.HeldBelow outer d) _ _ hset M hM
    obtain ⟨hM₂, hkeep₂⟩ := foldl_keeps_or (fun M' : Module => M'.detached = m.detached)
      (fun M' => (M'.decl d).parent) (m.HeldBelow outer d) _ _ hpass _ hM₁
    refine ⟨hM₂, ?_, fun hd hlt => ?_⟩
    · rcases hkeep₂ with h | h
      · rw [h]
        exact hkeep₁
      · exact .inr h
    · -- `d` is held by `outer`, or lies below a declaration `outer` holds
      obtain ⟨n, hxn, hnd⟩ := Relation.TransGen.head'_iff.1 hd
      rcases Relation.reflTransGen_iff_eq_or_transGen.1 hnd with rfl | hnd
      · -- set by the first fold, and kept by the second
        have hreach := foldl_reaches (fun M' : Module => M'.detached = m.detached)
          (fun M' => (M'.decl d).parent) (m.HeldBelow outer d) _ _ hset
          (a := d) (by rw [hnested]; exact hxn)
          (fun M' hM' => (parent_setHolder hxn (hρ.nested_lt _ _ hxn) d M' hM').2.2 rfl) M hM
        rcases hkeep₂ with h | h
        · rw [h]
          exact hreach
        · exact h
      · -- set by the pass of `n`, whose depth bound lies above its rank
        have hrank := hρ.rank_lt _ _ hxn
        exact foldl_reaches (fun M' : Module => M'.detached = m.detached)
          (fun M' => (M'.decl d).parent) (m.HeldBelow outer d) _ _ hpass
          (a := n) (List.mem_reverse.2 (by rw [hnested]; exact hxn))
          (fun M' hM' => HeldBelow.head hxn ((ih M' n hM').2.2 hnd (by omega))) _ hM₁

/-- Ranks do not grow down the nesting. -/
theorem rank_le_of_reflTransGen {ρ : DeclId → Nat} (hρ : m.NestRanking ρ) {x o : DeclId}
    (hxo : Relation.ReflTransGen m.Nests x o) : ρ o ≤ ρ x := by
  induction hxo with
  | refl => exact le_rfl
  | tail _ hod ih => exact (hρ.rank_lt _ _ hod).le.trans ih

theorem isAttached_eq_true_iff (M : Module) (d : DeclId) :
    M.isAttached d = true ↔ (M.decl d).parent ≠ .detached := by
  simp [isAttached]

/-- A detached declaration has no container. -/
theorem containerOf_of_detached {M : Module} {d : DeclId} (h : (M.decl d).parent = .detached) :
    M.containerOf d = none := by
  rw [containerOf, containerOfAux, h]

section Forest

variable (hm : m.ContainmentForest)
include hm

/-- The visit of a member of a reached container changes parents only. It keeps the parent of
`d` or places `d` somewhere, and places every `d` below the member. -/
theorem parent_visitMember {c : ContainerId} {x : DeclId} (hc : c ∈ m.containersInOrder)
    (hx : x ∈ (m.container c).members) (d : DeclId) (M : Module) (hM : M.detached = m.detached) :
    (visitMember c M x).detached = m.detached ∧
    (((visitMember c M x).decl d).parent = (M.decl d).parent ∨
      (m.Placed d ((visitMember c M x).decl d).parent ∧
        ((visitMember c M x).decl d).parent ≠ .detached)) ∧
    (Relation.ReflTransGen m.Nests x d → ((visitMember c M x).decl d).parent ≠ .detached) := by
  have hρ := hm.nesting.nestRanking
  have hM₁ := (detached_modifyDecl (f := fun y => { y with parent := .container c })
    (fun _ => rfl) M x).trans hM
  have hxlt : x < M.decls.size := (size_eq_of_detached hM).symm ▸ hm.members_lt c x hx
  have hfuel : m.nestRank x < M.decls.size + 1 := by
    rw [size_eq_of_detached hM]
    exact Nat.lt_succ_of_le (m.nestRank_le x)
  -- the member keeps its container: passing down sets parents strictly below it only
  have hroot : ((visitMember c M x).decl x).parent = .container c := by
    obtain ⟨-, hkeep, -⟩ := parent_patchNested hρ x (M.decls.size + 1) _ x hM₁
    rcases hkeep with h | ⟨o, hxo, hox, -⟩
    · rw [visitMember, h, parent_setParent, if_pos ⟨rfl, hxlt⟩]
    · exact absurd (Relation.TransGen.tail' hxo hox) (hm.nesting.acyclic x)
  obtain ⟨hV, hkeep, hwrite⟩ := parent_patchNested hρ d (M.decls.size + 1) _ x hM₁
  -- a declaration held below the member lies in the tree
  have hbelow : ∀ {p : Parent}, m.HeldBelow x d p → m.Placed d p ∧ p ≠ .detached := by
    rintro p ⟨o, hxo, hod, rfl⟩
    exact ⟨⟨hod, InTree.of_reflTransGen (.member hc hx) hxo⟩, by simp⟩
  refine ⟨hV, ?_, fun hxd => ?_⟩
  · by_cases hdx : x = d
    · subst hdx
      rw [hroot]
      exact .inr ⟨⟨hc, hx⟩, by simp⟩
    · rcases hkeep with h | h
      · left
        rw [visitMember, h, parent_setParent, if_neg fun h' => hdx h'.1]
      · exact .inr (hbelow h)
  · rcases Relation.reflTransGen_iff_eq_or_transGen.1 hxd with rfl | hxd
    · rw [hroot]
      simp
    · exact (hbelow (hwrite hxd hfuel)).2

/-- What the walk keeps for `d`: only parents have changed, and `d` is placed. -/
def WalkInv (m : Module) (d : DeclId) (M : Module) : Prop :=
  M.detached = m.detached ∧ m.Placed d (M.decl d).parent

/-- The visit of a member of a reached container keeps the walk's invariant, and keeps the parent
of `d` or attaches `d`. -/
theorem walkInv_visitMember {c : ContainerId} {x : DeclId} (hc : c ∈ m.containersInOrder)
    (hx : x ∈ (m.container c).members) (d : DeclId) (M : Module) (hM : m.WalkInv d M) :
    m.WalkInv d (visitMember c M x) ∧
    (((visitMember c M x).decl d).parent = (M.decl d).parent ∨
      ((visitMember c M x).decl d).parent ≠ .detached) := by
  obtain ⟨hV, hkeep, -⟩ := parent_visitMember hm hc hx d M hM.1
  rcases hkeep with h | h
  · refine ⟨⟨hV, ?_⟩, .inl h⟩
    rw [h]
    exact hM.2
  · exact ⟨⟨hV, h.1⟩, .inr h.2⟩

/-- The visit of a reached container keeps the walk's invariant, and keeps the parent of `d` or
attaches `d`. -/
theorem walkInv_visitContainer {c : ContainerId} (hc : c ∈ m.containersInOrder) (d : DeclId)
    (M : Module) (hM : m.WalkInv d M) :
    m.WalkInv d (visitContainer M c) ∧
    (((visitContainer M c).decl d).parent = (M.decl d).parent ∨
      ((visitContainer M c).decl d).parent ≠ .detached) := by
  refine foldl_keeps_or (m.WalkInv d) (fun M' => (M'.decl d).parent) (· ≠ .detached) _ _
    (fun M' x hx hM' => ?_) M hM
  rw [container_eq_of_detached hM.1] at hx
  exact walkInv_visitMember hm hc hx d M' hM'

/-- After the parents are recomputed, every declaration is placed where the forest puts it, or
detached, and every declaration of the tree is attached. -/
theorem placed_patchParents (d : DeclId) :
    m.Placed d (m.patchParents.decl d).parent ∧
      (m.InTree d → (m.patchParents.decl d).parent ≠ .detached) := by
  have hstart : m.WalkInv d m.detached := by
    refine ⟨detached_detached m, ?_⟩
    rw [decl_detached]
    trivial
  have hstep : ∀ (M : Module) (c : ContainerId), c ∈ m.containersInOrder → m.WalkInv d M →
      m.WalkInv d (visitContainer M c) ∧
      (((visitContainer M c).decl d).parent = (M.decl d).parent ∨
        ((visitContainer M c).decl d).parent ≠ .detached) :=
    fun M c hc hM => walkInv_visitContainer hm hc d M hM
  rw [patchParents_eq_foldl]
  refine ⟨(foldl_keeps_or (m.WalkInv d) (fun M => (M.decl d).parent) (· ≠ .detached) _ _ hstep
    m.detached hstart).1.2, fun hd => ?_⟩
  -- the visit of the member at the root of `d` attaches it, and no later visit detaches it
  obtain ⟨c, hc, x, hx, hxd⟩ := inTree_iff.1 hd
  refine foldl_reaches (m.WalkInv d) (fun M => (M.decl d).parent) (· ≠ .detached) _ _ hstep
    (a := c) hc (fun M hM => ?_) m.detached hstart
  refine foldl_reaches (m.WalkInv d) (fun M' => (M'.decl d).parent) (· ≠ .detached) _ _
    (fun M' y hy hM' => ?_) (a := x) (by rw [container_eq_of_detached hM.1]; exact hx)
    (fun M' hM' => (parent_visitMember hm hc hx d M' hM'.1).2.2 hxd) M hM
  rw [container_eq_of_detached hM.1] at hy
  exact walkInv_visitMember hm hc hy d M' hM'

/-- A declaration's parent is a container exactly when that container is reached and lists it. -/
theorem parent_patchParents_eq_container_iff {d : DeclId} {c : ContainerId} :
    (m.patchParents.decl d).parent = .container c ↔
      c ∈ m.containersInOrder ∧ d ∈ (m.container c).members := by
  have hplaced := (placed_patchParents hm d).1
  constructor
  · intro h
    rw [h] at hplaced
    exact hplaced
  · rintro ⟨hc, hd⟩
    have hne := (placed_patchParents hm d).2 (.member hc hd)
    -- a member has one place: its container
    cases hp : (m.patchParents.decl d).parent with
    | detached => exact absurd hp hne
    | container c' =>
      rw [hp] at hplaced
      rw [member_unique_of_places hm.places_le_one hplaced.2 hd]
    | decl o =>
      rw [hp] at hplaced
      exact absurd hplaced.1 (not_nests_member hm.places_le_one hd o)

/-- A declaration's parent is a declaration exactly when that one holds it and is attached. -/
theorem parent_patchParents_eq_decl_iff {d o : DeclId} :
    (m.patchParents.decl d).parent = .decl o ↔
      m.Nests o d ∧ m.patchParents.isAttached o = true := by
  have hplaced := (placed_patchParents hm d).1
  constructor
  · intro h
    rw [h] at hplaced
    exact ⟨hplaced.1, (isAttached_eq_true_iff _ _).2 ((placed_patchParents hm o).2 hplaced.2)⟩
  · rintro ⟨hod, ho⟩
    have hoT : m.InTree o :=
      (placed_patchParents hm o).1.inTree ((isAttached_eq_true_iff _ _).1 ho)
    have hne := (placed_patchParents hm d).2 (.nested hoT hod)
    -- a nested declaration has one place: its holder
    cases hp : (m.patchParents.decl d).parent with
    | detached => exact absurd hp hne
    | container c =>
      rw [hp] at hplaced
      exact absurd hod (not_nests_member hm.places_le_one hplaced.2 o)
    | decl o' =>
      rw [hp] at hplaced
      rw [holder_unique hm.places_le_one hplaced.1 hod]

/-- A declaration is detached exactly when it lies outside the tree. -/
theorem parent_patchParents_eq_detached_iff {d : DeclId} :
    (m.patchParents.decl d).parent = .detached ↔ ¬ m.InTree d := by
  constructor
  · intro h hd
    exact (placed_patchParents hm d).2 hd h
  · intro hd
    by_contra hne
    exact hd ((placed_patchParents hm d).1.inTree hne)

/-- A declaration is attached exactly when it lies in the tree. -/
theorem isAttached_patchParents_iff {d : DeclId} :
    m.patchParents.isAttached d = true ↔ m.InTree d := by
  rw [isAttached_eq_true_iff, Ne, parent_patchParents_eq_detached_iff hm, not_not]

/-- Below the member `x` of a reached container `c`, following parents from `d` reaches `c`
within as many steps as the ranks of `x` and `d` differ. -/
theorem containerOfAux_patchParents {c : ContainerId} {x d : DeclId}
    (hc : c ∈ m.containersInOrder) (hx : x ∈ (m.container c).members)
    (hxd : Relation.ReflTransGen m.Nests x d) :
    ∀ {f : Nat}, m.nestRank x - m.nestRank d < f → m.patchParents.containerOfAux f d = some c := by
  have hρ := hm.nesting.nestRanking
  induction hxd with
  | refl =>
    intro f hf
    cases f with
    | zero => omega
    | succ f => rw [containerOfAux, (parent_patchParents_eq_container_iff hm).2 ⟨hc, hx⟩]
  | @tail o d hxo hod ih =>
    intro f hf
    -- ranks drop along the nesting, so the holder `o` is one step nearer the member
    have hrank := hρ.rank_lt _ _ hod
    have hle : m.nestRank o ≤ m.nestRank x := rank_le_of_reflTransGen hρ hxo
    have hattached : m.patchParents.isAttached o = true :=
      (isAttached_patchParents_iff hm).2 (InTree.of_reflTransGen (.member hc hx) hxo)
    cases f with
    | zero => omega
    | succ f =>
      rw [containerOfAux, (parent_patchParents_eq_decl_iff hm).2 ⟨hod, hattached⟩]
      exact ih (by omega)

/-- The container of a declaration is the reached container one of whose members has it in its
tree. -/
theorem containerOf_patchParents_eq_some_iff {d : DeclId} {c : ContainerId} :
    m.patchParents.containerOf d = some c ↔
      c ∈ m.containersInOrder ∧
        ∃ x ∈ (m.container c).members, Relation.ReflTransGen m.Nests x d := by
  -- the depth bound of `containerOf` lies above every rank
  have hfound : ∀ {c : ContainerId} {x : DeclId}, c ∈ m.containersInOrder →
      x ∈ (m.container c).members → Relation.ReflTransGen m.Nests x d →
      m.patchParents.containerOf d = some c := by
    intro c x hc hx hxd
    refine containerOfAux_patchParents hm hc hx hxd ?_
    rw [size_eq_of_detached (detached_patchParents m)]
    have := m.nestRank_le x
    omega
  constructor
  · intro h
    have hne : (m.patchParents.decl d).parent ≠ .detached := by
      intro hdet
      rw [containerOf_of_detached hdet] at h
      cases h
    obtain ⟨c', hc', x, hx, hxd⟩ := inTree_iff.1 ((placed_patchParents hm d).1.inTree hne)
    rw [hfound hc' hx hxd] at h
    cases h
    exact ⟨hc', x, hx, hxd⟩
  · rintro ⟨hc, x, hx, hxd⟩
    exact hfound hc hx hxd

/-- A declaration has no container exactly when it is detached. -/
theorem containerOf_patchParents_eq_none_iff {d : DeclId} :
    m.patchParents.containerOf d = none ↔ (m.patchParents.decl d).parent = .detached := by
  constructor
  · intro h
    by_contra hne
    obtain ⟨c, hc, x, hx, hxd⟩ := inTree_iff.1 ((placed_patchParents hm d).1.inTree hne)
    rw [((containerOf_patchParents_eq_some_iff hm).2 ⟨hc, x, hx, hxd⟩)] at h
    cases h
  · exact containerOf_of_detached

end Forest

/-- Recomputing the parents changes neither the containers nor the nesting, so neither the
reachable declarations. -/
theorem reachableDecls_patchParents (m : Module) :
    m.patchParents.reachableDecls = m.reachableDecls :=
  reachableDecls_congr (files_patchParents m) (containers_patchParents m)
    (size_eq_of_detached (detached_patchParents m))
    fun d => nestedDecls_eq_of_detached (detached_patchParents m) d

/-- **Parent links are the containment tree.** In a module whose containment is a forest, once
the parents are recomputed, a declaration's parent is a container exactly when that container
is reached from the files and lists it, and a declaration exactly when that declaration holds it
and is attached itself; a declaration is detached exactly when no member of a reached container
has it in its tree. The reachable declarations list every attached declaration once, each before
the declarations it holds. The container of a declaration is the reached container one of whose
members has it in its tree, and there is none exactly for a detached declaration. -/
theorem patchParents_followsTree {m : Module} (hm : m.ContainmentForest) :
    (∀ d c, (m.patchParents.decl d).parent = .container c ↔
      c ∈ m.containersInOrder ∧ d ∈ (m.container c).members) ∧
    (∀ d o, (m.patchParents.decl d).parent = .decl o ↔
      m.Nests o d ∧ m.patchParents.isAttached o = true) ∧
    (∀ d, (m.patchParents.decl d).parent = .detached ↔ ¬ ∃ c ∈ m.containersInOrder,
      ∃ x ∈ (m.container c).members, Relation.ReflTransGen m.Nests x d) ∧
    m.patchParents.reachableDecls.Nodup ∧
    (∀ d, d ∈ m.patchParents.reachableDecls ↔ m.patchParents.isAttached d = true) ∧
    (∀ o d, m.Nests o d → o ∈ m.patchParents.reachableDecls →
      [o, d].Sublist m.patchParents.reachableDecls) ∧
    (∀ d c, m.patchParents.containerOf d = some c ↔ c ∈ m.containersInOrder ∧
      ∃ x ∈ (m.container c).members, Relation.ReflTransGen m.Nests x d) ∧
    (∀ d, m.patchParents.containerOf d = none ↔ (m.patchParents.decl d).parent = .detached) := by
  rw [reachableDecls_patchParents]
  refine ⟨fun d c => parent_patchParents_eq_container_iff hm,
    fun d o => parent_patchParents_eq_decl_iff hm,
    fun d => (parent_patchParents_eq_detached_iff hm).trans (not_congr inTree_iff),
    nodup_reachableDecls hm,
    fun d => (mem_reachableDecls_iff hm.nesting).trans (isAttached_patchParents_iff hm).symm,
    fun o d hod ho => pair_sublist_reachableDecls hm.nesting hod ho,
    fun d c => containerOf_patchParents_eq_some_iff hm,
    fun d => containerOf_patchParents_eq_none_iff hm⟩

/-- A file whose member `new` (2) took the place of `old` (1) and holds the lambda `L` (0), a
class in the file with a member of its own (3), and a file no longer among the module's files,
with a member (4). -/
def replacedModule : Module :=
  { name := "app",
    decls := #[
      { name := "L", kind := .function, origin := .lambda, visibility := .local,
        body := some (.block [] Ty.unit) },
      { name := "Content", kind := .function, parent := .container 0 },
      { name := "Content", kind := .function, body := some (.block [.fn 0 Ty.any] Ty.unit) },
      { name := "G", kind := .function, parent := .container 1 },
      { name := "H", kind := .function, parent := .container 2 }],
    containers := #[{ kind := .file "p", members := [2], classes := [1] },
      { kind := .cls "Screen", parent := some 0, members := [3] },
      { kind := .file "q", members := [4] }],
    files := [0] }

theorem replacedModule_followsTree : replacedModule.ContainmentForest ∧
    (∀ d c, (replacedModule.patchParents.decl d).parent = .container c ↔
      c ∈ replacedModule.containersInOrder ∧ d ∈ (replacedModule.container c).members) ∧
    (∀ d o, (replacedModule.patchParents.decl d).parent = .decl o ↔
      replacedModule.Nests o d ∧ replacedModule.patchParents.isAttached o = true) ∧
    (∀ d, (replacedModule.patchParents.decl d).parent = .detached ↔
      ¬ ∃ c ∈ replacedModule.containersInOrder,
      ∃ x ∈ (replacedModule.container c).members, Relation.ReflTransGen replacedModule.Nests x d) ∧
    replacedModule.patchParents.reachableDecls.Nodup ∧
    (∀ d, d ∈ replacedModule.patchParents.reachableDecls ↔
      replacedModule.patchParents.isAttached d = true) ∧
    (∀ o d, replacedModule.Nests o d → o ∈ replacedModule.patchParents.reachableDecls →
      [o, d].Sublist replacedModule.patchParents.reachableDecls) ∧
    (∀ d c, replacedModule.patchParents.containerOf d = some c ↔
      c ∈ replacedModule.containersInOrder ∧
      ∃ x ∈ (replacedModule.container c).members, Relation.ReflTransGen replacedModule.Nests x d) ∧
    (∀ d, replacedModule.patchParents.containerOf d = none ↔
      (replacedModule.patchParents.decl d).parent = .detached) :=
  have hplaces : replacedModule.placeList.Nodup := by decide +kernel
  have hm : replacedModule.ContainmentForest :=
    ⟨(inArena_of_check (by decide +kernel)).members_lt, acyclicNesting_of_check (by decide +kernel),
      fun d => List.nodup_iff_count_le_one.1 hplaces d, by decide +kernel⟩
  ⟨hm, patchParents_followsTree hm⟩

end Module

end ComposeLowering
