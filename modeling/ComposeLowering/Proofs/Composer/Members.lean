import ComposeLowering.Proofs.Composer.Memo
import ComposeLowering.Proofs.ContainmentTree

/-!
# A run puts the lowered form of each member in its place

The loop of the composer pass over the containers of a module and their members visits each
member and, when the visit returns another declaration, puts that one in the member's place. A
visit returns what the records then answer for the member (`Composer.memo`): its recorded clone
when it needs one, the member itself otherwise (`memo_visitDecl`), and that answer stays as the
records grow. In a module that lists each declaration once, by one container at most
(`Module.Listing`, which a containment forest satisfies), and since every clone lies past the
arena, putting a clone in a member's place touches no other entry of any container.

`Composer.Replaced m V s` states what the loop has done once it has visited the members `V` of
`m`: every container lists, in the place of each visited member, what the records answer for
it, and its other members as they were. Visiting a member extends `V` by it
(`Replaced.visited`, `Replaced.keep`, `Replaced.replace`); the members of a container are
visited in order, and the containers in order, so a run leaves every container reached from the
files listing the lowered form of each of its members and every other container as it was
(`run_replacesMembers`).
-/

namespace ComposeLowering

namespace Module

/-- Replacing a member rewrites the entries of its own container only. -/
theorem members_replaceMember (m : Module) (c c' : ContainerId) (old new : DeclId) :
    ((m.replaceMember c old new).container c').members =
      if c = c' then (m.container c').members.map fun y => if y = old then new else y
      else (m.container c').members := by
  unfold replaceMember
  split
  · change ((m.modifyContainer c _).container c').members = _
    rw [container_modifyContainer]
    by_cases hcc : c = c'
    · subst hcc
      rw [if_pos rfl]
      by_cases hc : c < m.containers.size
      · simp [hc]
      · -- past the containers nothing is listed
        rw [if_neg fun h => hc h.2, container, Array.getElem?_eq_none (Nat.le_of_not_lt hc)]
        rfl
    · simp [hcc]
  · rename_i hold
    split
    · rename_i hcc
      subst hcc
      refine (List.map_congr_left fun y hy => ?_).trans (List.map_id _) |>.symm
      rw [if_neg fun (h : y = old) => hold (h ▸ hy)]
      rfl
    · rfl

/-- What the loop over the members needs of a module: every member and every `fn` node lies in
the arena, no declaration is listed twice, by one container or by two, and no container is
reached twice from the files. -/
structure Listing (m : Module) : Prop where
  members_lt : ∀ c, ∀ d ∈ (m.container c).members, d < m.decls.size
  fns : m.FnsInArena
  members_nodup : ∀ c, (m.container c).members.Nodup
  member_unique : ∀ {c c' : ContainerId} {d : DeclId}, d ∈ (m.container c).members →
    d ∈ (m.container c').members → c = c'
  containers_nodup : m.containersInOrder.Nodup

end Module

/-- `y'` stands in the place of `y` in the module `M`: when `needs` holds, a declaration other
than `y`, at `n` or past it, with a composer parameter; otherwise `y` itself. -/
def StandsFor (needs : Bool) (n : Nat) (M : Module) (y y' : DeclId) : Prop :=
  if needs then y' ≠ y ∧ n ≤ y' ∧ (M.decl y').hasComposer = true else y' = y

/-- Standing for a declaration survives a lower bound and a module with the same composer
parameters. -/
theorem StandsFor.mono {needs : Bool} {n n' : Nat} {M M' : Module} {y y' : DeclId}
    (h : StandsFor needs n M y y') (hn : n' ≤ n)
    (hM : ∀ z, (M'.decl z).hasComposer = (M.decl z).hasComposer) :
    StandsFor needs n' M' y y' := by
  unfold StandsFor at h ⊢
  split at h
  · obtain ⟨hne, hle, hc⟩ := h
    rw [if_pos ‹_›]
    exact ⟨hne, Nat.le_trans hn hle, (hM y').trans hc⟩
  · rw [if_neg ‹_›]
    exact h

namespace Composer

/-- What a run puts in the place of a member: what the records answer for it, its recorded
clone when it needs one and the member itself otherwise. -/
def loweredMember (s : ComposerState) (x : DeclId) : DeclId := (memo s x).getD x

variable {n : Nat} {s s' : ComposerState} {d r : DeclId}

/-- An answer of the records stays while they only grow and the declaration keeps whether it
needs a clone. -/
theorem memo_stable (hM' : Memo n s') (hrec : s.clones <:+ s'.clones)
    (hclone : (s'.module.decl d).needsClone = (s.module.decl d).needsClone)
    (h : memo s d = some r) : memo s' d = some r := by
  unfold memo at h ⊢
  rw [hclone]
  split at h
  · rw [if_pos ‹_›]
    exact hM'.lookup_of_mem (hrec.subset (mem_of_lookup_eq_some h))
  · rw [if_neg ‹_›]
    exact h

/-- Reparenting leaves every answer of the records as it was. -/
theorem memo_reparented {m' : Module} (h : s.module.Reparented m') :
    memo { s with module := m' } = memo s := by
  funext d
  simp only [memo, h.congr (f := Decl.needsClone) (fun _ => rfl) d]

/-- Every clone lies past the arena the transformer started with. -/
theorem Memo.le_of_mem_clones (hM : Memo n s) {p : DeclId × DeclId} (hp : p ∈ s.clones) :
    n ≤ p.2 := by
  have hmem : p.2 ∈ s.clones.map Prod.snd := List.mem_map_of_mem hp
  rw [hM.allocated, List.mem_reverse, List.mem_range'] at hmem
  obtain ⟨i, -, hi⟩ := hmem
  omega

/-- The records answer a declaration by itself or by a clone, which lies past the arena the
transformer started with. -/
theorem Memo.eq_or_le_of_memo (hM : Memo n s) (h : memo s d = some r) : r = d ∨ n ≤ r := by
  rw [memo] at h
  split at h
  · exact .inr (hM.le_of_mem_clones (mem_of_lookup_eq_some h))
  · exact .inl (Option.some.inj h).symm

/-- A declaration of the arena the transformer started with lies in the current arena. -/
theorem Memo.lt_size (hM : Memo n s) (hd : d < n) : d < s.module.decls.size :=
  hM.size_eq ▸ Nat.lt_add_right _ hd

/-- A visit returns what the records then answer for the declaration visited. -/
theorem memo_visitDecl {fuel : Nat} {opts : LowerOptions} (hM : Memo n s) (hs : Steady s)
    (hd : d < s.module.decls.size) (h : visitDecl fuel d opts s = .ok (r, s')) :
    memo s' d = some r := by
  cases fuel with
  | zero => simp [visitDecl] at h
  | succ fuel =>
    rw [visitDecl] at h
    obtain ⟨d', s₁, h₁, h⟩ := bind_ok h
    obtain ⟨u, s₂, h₂, h⟩ := bind_ok h
    obtain ⟨rfl, rfl⟩ : d' = r ∧ s₂ = s' := by cases h; exact ⟨rfl, rfl⟩
    -- the lowered form is the answer; lowering the expressions of it keeps the answer
    obtain ⟨hM₁, -, hmemo⟩ := (memoWalks fuel).lowerDecl d opts s d' s₁ h₁ hM trivial
    obtain ⟨hs₁, hv₁, hd', hn', -⟩ := settles_lowerDecl fuel d opts s d' s₁ h₁ hs hd
    obtain ⟨hM₂, hrec, -⟩ := memoizes_mapExprs (memoizes_mapNestedM (memoizes_visitDecl fuel)) d'
      opts s₁ u s₂ h₂ hM₁ trivial
    obtain ⟨-, hv₂, -⟩ := settles_mapExprs (settles_visitDecl fuel) d' opts s₁ u s₂ h₂ hs₁
      ⟨hd', hn'⟩
    exact memo_stable hM₂ hrec (hv₂.needsClone_eq (Nat.lt_of_lt_of_le hd hv₁.size_le)) hmemo

/-! ## The loop over the members -/

variable {m : Module} {V : List DeclId}

/-- What the loop over the members of `m` has done once it has visited the members `V`: the
records are consistent, every declaration of `m` keeps all but its parent, defaults and body,
each visited member lies in the arena and has its answer, and every container lists that answer
in the place of each visited member and its other members as they were. The containers keep
their order and positions, the type parameters stay, and every declaration a `fn` node holds
was held in `m` or is a recorded clone. -/
structure Replaced (m : Module) (V : List DeclId) (s : ComposerState) : Prop where
  memo : Memo m.decls.size s
  steady : Steady s
  core_eq : ∀ x < m.decls.size, (s.module.decl x).core.unparented = (m.decl x).core.unparented
  visited_lt : ∀ x ∈ V, x < m.decls.size
  answered : ∀ x ∈ V, (Composer.memo s x).isSome
  members_eq : ∀ c, (s.module.container c).members =
    (m.container c).members.map fun x => if x ∈ V then loweredMember s x else x
  order_eq : s.module.containersInOrder = m.containersInOrder
  positions_eq : s.module.containers.map Container.position = m.containers.map Container.position
  typeParams_eq : s.module.typeParams = m.typeParams
  held : ∀ z y, s.module.Nests z y → (∃ z', m.Nests z' y) ∨ ∃ o, (o, y) ∈ s.clones

/-- A visit keeps what the loop has done: it changes no container, keeps whether a declaration
needs a clone, and only adds records. -/
theorem Replaced.visited (h : Replaced m V s) (hM' : Memo m.decls.size s') (hs' : Steady s')
    (hrec : s.clones <:+ s'.clones) (hv : Visited s s') : Replaced m V s' := by
  have hclone : ∀ x < m.decls.size,
      (s'.module.decl x).needsClone = (s.module.decl x).needsClone := fun x hx =>
    hv.needsClone_eq (h.memo.lt_size hx)
  -- the answers given so far stay
  have hmemo : ∀ x ∈ V, Composer.memo s' x = Composer.memo s x := fun x hx => by
    obtain ⟨r, hr⟩ := Option.isSome_iff_exists.1 (h.answered x hx)
    rw [hr, memo_stable hM' hrec (hclone x (h.visited_lt x hx)) hr]
  refine ⟨hM', hs', fun x hx => ?_, h.visited_lt,
    fun x hx => hmemo x hx ▸ h.answered x hx, fun c => ?_, ?_, by rw [hv.containers_eq,
    h.positions_eq], hv.typeParams_eq.trans h.typeParams_eq, fun z y hzy => ?_⟩
  · rw [← h.core_eq x hx, hv.core_eq x (h.memo.lt_size hx)]
  · rw [Module.container, hv.containers_eq, ← Module.container, h.members_eq]
    refine List.map_congr_left fun x _ => ?_
    by_cases hx : x ∈ V
    · simp only [hx, if_true, loweredMember, hmemo x hx]
    · simp only [hx, if_false]
  · rw [Module.containersInOrder_congr hv.files_eq (by rw [hv.containers_eq])
      fun c => by rw [Module.container, hv.containers_eq, ← Module.container], h.order_eq]
  · -- a declaration held now was held before the visit, or is a clone it recorded
    rcases hv.held z y hzy with ⟨z', hz'⟩ | hclone
    · exact (h.held z' y hz').imp_right (Exists.imp fun _ ho => hrec.subset ho)
    · exact .inr hclone

/-- A member answered by itself stays in its place. -/
theorem Replaced.keep (h : Replaced m V s) {x : DeclId} (hx : x < m.decls.size)
    (hself : Composer.memo s x = some x) : Replaced m (V ++ [x]) s := by
  refine ⟨h.memo, h.steady, h.core_eq, fun y hy => ?_, fun y hy => ?_, fun c => ?_, h.order_eq,
    h.positions_eq, h.typeParams_eq, h.held⟩
  · rcases List.mem_append.1 hy with hy | hy
    · exact h.visited_lt y hy
    · exact List.mem_singleton.1 hy ▸ hx
  · rcases List.mem_append.1 hy with hy | hy
    · exact h.answered y hy
    · rw [List.mem_singleton.1 hy, hself]
      rfl
  · rw [h.members_eq]
    refine List.map_congr_left fun y _ => ?_
    by_cases hyV : y ∈ V
    · simp [hyV]
    · by_cases hyx : y = x
      · subst hyx
        simp [hyV, loweredMember, hself]
      · simp [hyV, hyx]

/-- Putting the answer for a member `x` of the container `c`, not visited yet, in its place
extends the visited members by `x`: no other entry of any container is `x`, since a visited
member is answered by itself or by a clone past the arena, and `x` lies in `c` alone. -/
theorem Replaced.replace (hm : m.Listing) (h : Replaced m V s) {c : ContainerId}
    {x new : DeclId} (hx : x ∈ (m.container c).members) (hxV : x ∉ V)
    (hnew : Composer.memo s x = some new) :
    Replaced m (V ++ [x]) { s with module := s.module.replaceMember c x new } := by
  have hre := Module.reparented_replaceMember (m := s.module) c x new
  have hxn : x < m.decls.size := hm.members_lt c x hx
  have hL : loweredMember { s with module := s.module.replaceMember c x new } = loweredMember s := by
    funext y
    simp only [loweredMember, memo_reparented hre]
  have hne : ∀ y ∈ V, loweredMember s y ≠ x := by
    intro y hy hyx
    obtain ⟨r, hr⟩ := Option.isSome_iff_exists.1 (h.answered y hy)
    rw [loweredMember, hr, Option.getD_some] at hyx
    subst hyx
    rcases h.memo.eq_or_le_of_memo hr with rfl | hle
    · exact hxV hy
    · exact Nat.not_lt.2 hle hxn
  refine ⟨h.memo.agrees hre fun _ => ⟨rfl, rfl⟩, steady_reparented hre h.steady,
    fun y hy => (hre.congr (f := fun x => x.core.unparented) (fun _ => rfl) y).trans (h.core_eq y hy),
    fun y hy => ?_, fun y hy => ?_, fun c' => ?_,
    (Module.containersInOrder_replaceMember _ c x new).trans h.order_eq,
    (Module.positions_replaceMember _ c x new).trans h.positions_eq,
    (Module.typeParams_replaceMember _ c x new).trans h.typeParams_eq,
    fun z y hzy => h.held z y (hre.nests_iff.1 hzy)⟩
  · rcases List.mem_append.1 hy with hy | hy
    · exact h.visited_lt y hy
    · exact List.mem_singleton.1 hy ▸ hxn
  · rw [memo_reparented hre]
    rcases List.mem_append.1 hy with hy | hy
    · exact h.answered y hy
    · rw [List.mem_singleton.1 hy, hnew]
      rfl
  · rw [hL, Module.members_replaceMember, h.members_eq]
    split
    · rename_i hcc
      subst hcc
      rw [List.map_map]
      refine List.map_congr_left fun y _ => ?_
      by_cases hyV : y ∈ V
      · simp [hyV, hne y hyV]
      · by_cases hyx : y = x
        · subst hyx
          simp [hyV, loweredMember, hnew]
        · simp [hyV, hyx]
    · -- `x` lies in `c` alone
      rename_i hcc
      refine List.map_congr_left fun y hy => ?_
      have hyx : y ≠ x := fun hyx =>
        hcc (hm.member_unique hx (hyx ▸ hy))
      simp [hyx]

/-- Recomputing the parents keeps what the loop has done. -/
theorem Replaced.patchParents (h : Replaced m V s) :
    Replaced m V { s with module := s.module.patchParents } := by
  have hre := Module.reparented_patchParents (m := s.module)
  have hL : loweredMember { s with module := s.module.patchParents } = loweredMember s := by
    funext y
    simp only [loweredMember, memo_reparented hre]
  refine ⟨h.memo.agrees hre fun _ => ⟨rfl, rfl⟩, steady_reparented hre h.steady,
    fun y hy => (hre.congr (f := fun x => x.core.unparented) (fun _ => rfl) y).trans (h.core_eq y hy),
    h.visited_lt, fun y hy => memo_reparented hre ▸ h.answered y hy, fun c => ?_, ?_,
    by rw [Module.containers_patchParents]; exact h.positions_eq,
    (Module.typeParams_patchParents _).trans h.typeParams_eq,
    fun z y hzy => h.held z y (hre.nests_iff.1 hzy)⟩
  · rw [hL, Module.container, Module.containers_patchParents, ← Module.container]
    exact h.members_eq c
  · rw [Module.containersInOrder_congr (Module.files_patchParents _)
      (by rw [Module.containers_patchParents])
      fun c => by rw [Module.container, Module.containers_patchParents, ← Module.container],
      h.order_eq]

/-! ## The loops over the containers and their members -/

section Order

variable {done todo : List ContainerId} {c : ContainerId} {pre rest : List DeclId} {x y : DeclId}

/-- The members of the containers run before `c` do not include a member of `c`. -/
theorem not_mem_members_before (hm : m.Listing)
    (hcs : m.containersInOrder = done ++ c :: todo) (hy : y ∈ (m.container c).members) :
    y ∉ done.flatMap fun c => (m.container c).members := by
  intro hyd
  obtain ⟨c', hc', hyc'⟩ := List.mem_flatMap.1 hyd
  have hnodup : (done ++ c :: todo).Nodup := hcs ▸ hm.containers_nodup
  have hcc' : c = c' := hm.member_unique hy hyc'
  exact List.disjoint_of_nodup_append hnodup (hcc' ▸ hc') List.mem_cons_self

/-- The next member of `c` to visit is not among those visited before it. -/
theorem not_mem_visited_before (hm : m.Listing)
    (hcs : m.containersInOrder = done ++ c :: todo)
    (hsplit : (m.container c).members = pre ++ x :: rest) :
    x ∉ (done.flatMap fun c => (m.container c).members) ++ pre := by
  have hx : x ∈ (m.container c).members := hsplit ▸ List.mem_append_right _ List.mem_cons_self
  have hnodup : (pre ++ x :: rest).Nodup := hsplit ▸ hm.members_nodup c
  intro hxV
  rcases List.mem_append.1 hxV with hxd | hxp
  · exact not_mem_members_before hm hcs hx hxd
  · exact List.disjoint_of_nodup_append hnodup hxp List.mem_cons_self

end Order

/-- Before the containers `todo`, in the order the files reach them: the members of the
containers run so far are visited. -/
def ReplacedBefore (m : Module) (todo : List ContainerId) (s : ComposerState) : Prop :=
  ∃ done, m.containersInOrder = done ++ todo ∧
    Replaced m (done.flatMap fun c => (m.container c).members) s

/-- Part way through the members of the container `c`, with `rest` still to visit: the members
of the containers run before `c` are visited, and then those of `c` before `rest`. -/
def ReplacedIn (m : Module) (todo : List ContainerId) (c : ContainerId) (rest : List DeclId)
    (s : ComposerState) : Prop :=
  ∃ done pre, m.containersInOrder = done ++ c :: todo ∧ (m.container c).members = pre ++ rest ∧
    Replaced m ((done.flatMap fun c => (m.container c).members) ++ pre) s

variable {todo : List ContainerId} {c : ContainerId} {rest : List DeclId}

/-- A container not run yet still lists its members as they were. -/
theorem ReplacedIn.start (hm : m.Listing) (h : ReplacedBefore m (c :: todo) s) :
    ReplacedIn m todo c (s.module.container c).members s := by
  obtain ⟨done, hcs, hR⟩ := h
  have hsame : (s.module.container c).members = (m.container c).members := by
    rw [hR.members_eq]
    refine (List.map_congr_left fun y hy => ?_).trans (List.map_id _)
    rw [if_neg (not_mem_members_before hm hcs hy)]
    rfl
  exact ⟨done, [], hcs, hsame ▸ rfl, by simpa using hR⟩

/-- Having visited every member of `c`, the loop is before the containers after it. -/
theorem ReplacedIn.finish (h : ReplacedIn m todo c [] s) : ReplacedBefore m todo s := by
  obtain ⟨done, pre, hcs, hsplit, hR⟩ := h
  refine ⟨done ++ [c], by simp [hcs], ?_⟩
  rw [List.flatMap_append, List.flatMap_singleton, hsplit, List.append_nil]
  exact hR

/-- Visiting the next member `x` of `c` answers it and keeps what the loop has done: when the
answer is `x` itself, where it stands, and otherwise once the answer is put in its place. -/
theorem ReplacedIn.visit (hm : m.Listing) {x new : DeclId} {fuel : Nat}
    {opts : LowerOptions} (h : ReplacedIn m todo c (x :: rest) s)
    (hvisit : visitDecl fuel x opts s = .ok (new, s')) :
    (new = x → ReplacedIn m todo c rest s') ∧
      ReplacedIn m todo c rest { s' with module := s'.module.replaceMember c x new } := by
  obtain ⟨done, pre, hcs, hsplit, hR⟩ := h
  have hxc : x ∈ (m.container c).members := hsplit ▸ List.mem_append_right _ List.mem_cons_self
  have hxn : x < m.decls.size := hm.members_lt c x hxc
  have hxs : x < s.module.decls.size := hR.memo.lt_size hxn
  -- the visit answers `x` and keeps what the loop has done
  have hmemo := memo_visitDecl hR.memo hR.steady hxs hvisit
  obtain ⟨hM', hrec, -⟩ := memoizes_visitDecl fuel x opts s new s' hvisit hR.memo trivial
  obtain ⟨hs', hv, -⟩ := settles_visitDecl fuel x opts s new s' hvisit hR.steady hxs
  have hR' := hR.visited hM' hs' hrec hv
  have hsplit' : (m.container c).members = (pre ++ [x]) ++ rest := by simp [hsplit]
  refine ⟨fun hsame => ⟨done, pre ++ [x], hcs, hsplit', ?_⟩, ⟨done, pre ++ [x], hcs, hsplit', ?_⟩⟩
  · rw [← List.append_assoc]
    exact hR'.keep hxn (hsame ▸ hmemo)
  · rw [← List.append_assoc]
    exact hR'.replace hm hxc (not_mem_visited_before hm hcs hsplit) hmemo

end Composer

end ComposeLowering
