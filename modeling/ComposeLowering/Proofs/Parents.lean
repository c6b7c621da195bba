import Mathlib
import ComposeLowering.Proofs.Composer.Settled

/-!
# Where recomputing the parents puts a member

`Module.patchParents` walks the containers in order and, for each member, makes the container
its parent and then the member the parent of every declaration it holds, downwards. Each step
changes parents only (`Module.detached_patchParents`), so the containers and the nesting that
the walk reads are the module's own throughout. A member of the arena that one container of the
walk lists, and that no `fn` node holds, is therefore left with that container as its parent:
every step leaves its parent alone, except the visits of that member, which set it to that
container.

Where every declaration has at most one place, as in a well-formed module, a member is listed
by one container only and held by no `fn` node, and a nested declaration is held by one
declaration only, once: two places would count twice in the module's list of places.
-/

namespace ComposeLowering

/-- A left fold whose every step keeps `I`, and either keeps `get` or moves it into `P`, ends
with `get` where it started or in `P`. -/
theorem foldl_keeps_or {α β γ : Type} (I : β → Prop) (get : β → γ) (P : γ → Prop)
    (f : β → α → β) (xs : List α)
    (hstep : ∀ b a, a ∈ xs → I b → I (f b a) ∧ (get (f b a) = get b ∨ P (get (f b a)))) :
    ∀ b, I b → I (xs.foldl f b) ∧ (get (xs.foldl f b) = get b ∨ P (get (xs.foldl f b))) := by
  intro b hb
  refine List.foldlRecOn (motive := fun b' => I b' ∧ (get b' = get b ∨ P (get b'))) xs f
    ⟨hb, .inl rfl⟩ fun b' hb' a ha => ?_
  obtain ⟨hI, hget⟩ := hstep b' a ha hb'.1
  refine ⟨hI, ?_⟩
  rcases hget with hget | hget
  · rw [hget]
    exact hb'.2
  · exact .inr hget

/-- A left fold whose every step keeps `I`, and either keeps `get` or moves it into `P`, ends
with `get` in `P` once a step that always moves it there has run. -/
theorem foldl_reaches {α β γ : Type} (I : β → Prop) (get : β → γ) (P : γ → Prop)
    (f : β → α → β) (xs : List α)
    (hstep : ∀ b a, a ∈ xs → I b → I (f b a) ∧ (get (f b a) = get b ∨ P (get (f b a))))
    {a : α} (ha : a ∈ xs) (hset : ∀ b, I b → P (get (f b a))) :
    ∀ b, I b → P (get (xs.foldl f b)) := by
  induction xs with
  | nil => exact absurd ha List.not_mem_nil
  | cons x xs ih =>
    intro b hb
    rw [List.foldl_cons]
    have hx := hstep b x List.mem_cons_self hb
    have hrest : ∀ b a, a ∈ xs → I b → I (f b a) ∧ (get (f b a) = get b ∨ P (get (f b a))) :=
      fun b a h => hstep b a (List.mem_cons_of_mem _ h)
    rcases List.mem_cons.1 ha with rfl | ha
    · -- the step that moves `get` into `P` runs first, and no later step moves it out
      obtain ⟨-, hlast⟩ := foldl_keeps_or I get P f xs hrest (f b a) hx.1
      rcases hlast with hlast | hlast
      · rw [hlast]
        exact hset b hb
      · exact hlast
    · exact ih hrest ha (f b x) hx.1

namespace Module

variable {m : Module}

theorem decl_detached (m : Module) (z : DeclId) :
    m.detached.decl z = { m.decl z with parent := .detached } := by
  simp only [detached, decl, Array.getElem?_map]
  cases m.decls[z]? <;> rfl

theorem container_eq_of_detached {m' : Module} (h : m'.detached = m.detached) (c : ContainerId) :
    m'.container c = m.container c := by
  have hc := congrArg Module.containers h
  simp only [detached] at hc
  simp only [container, hc]

theorem nestedDecls_eq_of_detached {m' : Module} (h : m'.detached = m.detached) (z : DeclId) :
    m'.nestedDecls z = m.nestedDecls z := by
  have hz := congrArg (fun M : Module => (M.decl z).nestedFns) h
  simp only [decl_detached] at hz
  exact hz

theorem size_eq_of_detached {m' : Module} (h : m'.detached = m.detached) :
    m'.decls.size = m.decls.size := by
  have hs := congrArg (fun M : Module => M.decls.size) h
  simpa [detached] using hs

/-- Making what `outer` holds its children, downwards, leaves alone a declaration that no `fn`
node holds. -/
theorem decl_patchNested {d : DeclId} (hnest : ∀ z, d ∉ m.nestedDecls z) :
    ∀ (fuel : Nat) (m' : Module) (outer : DeclId), m'.detached = m.detached →
      (m'.patchNested fuel outer).decl d = m'.decl d
  | 0, _, _, _ => rfl
  | fuel + 1, m', outer, h => by
    have hnested : d ∉ m'.nestedDecls outer := by
      rw [nestedDecls_eq_of_detached h]
      exact hnest outer
    rw [patchNested]
    -- first the parents of what `outer` holds, then what each of them holds
    have hparents := List.foldlRecOn
      (motive := fun M : Module => M.detached = m.detached ∧ M.decl d = m'.decl d)
      (m'.nestedDecls outer) (fun M n => M.modifyDecl n fun x => { x with parent := .decl outer })
      ⟨h, rfl⟩ fun M hM n hn => ⟨(detached_modifyDecl
        (f := fun x => { x with parent := .decl outer }) (fun _ => rfl) M n).trans hM.1, by
        rw [decl_modifyDecl, if_neg fun h' : n = d ∧ _ => hnested (h'.1 ▸ hn), hM.2]⟩
    exact (List.foldlRecOn
      (motive := fun M : Module => M.detached = m.detached ∧ M.decl d = m'.decl d) _ _ hparents
      fun M hM n _ => ⟨(detached_patchNested fuel M n).trans hM.1,
        (decl_patchNested hnest fuel M n hM.1).trans hM.2⟩).2

/-- The visit of a member `x` of container `c` in the walk of `patchParents`: `c` becomes the
parent of `x`, and `x` passes down what it holds. -/
def visitMember (c : ContainerId) (M : Module) (x : DeclId) : Module :=
  (M.modifyDecl x fun y => { y with parent := .container c }).patchNested (M.decls.size + 1) x

/-- The visit of a container: each of its members in turn. -/
def visitContainer (M : Module) (c : ContainerId) : Module :=
  (M.container c).members.foldl (visitMember c) M

/-- Recomputing the parents forgets them all and visits the reached containers in order. -/
theorem patchParents_eq_foldl (m : Module) :
    m.patchParents = m.containersInOrder.foldl visitContainer m.detached := by
  have horder : m.detached.containersInOrder = m.containersInOrder :=
    containersInOrder_congr rfl rfl fun _ => rfl
  rw [← horder]
  rfl

/-- A member of the arena that one container of the walk lists, and that no `fn` node holds,
gets that container as its parent when the parents are recomputed. -/
theorem parent_patchParents {d : DeclId} {c : ContainerId} (hsize : d < m.decls.size)
    (hc : c ∈ m.containersInOrder) (hd : d ∈ (m.container c).members)
    (hone : ∀ c' ∈ m.containersInOrder, d ∈ (m.container c').members → c' = c)
    (hnest : ∀ z, d ∉ m.nestedDecls z) :
    (m.patchParents.decl d).parent = .container c := by
  -- the visit of a member `x` of `c'` sets the parent of `d` to `c'` if `x` is `d`, and leaves
  -- it alone otherwise
  have hvisit : ∀ (c' : ContainerId) (M : Module) (x : DeclId), M.detached = m.detached →
      (visitMember c' M x).detached = m.detached ∧
      ((visitMember c' M x).decl d).parent =
        if x = d then .container c' else (M.decl d).parent := by
    intro c' M x hM
    have hM₁ := (detached_modifyDecl (f := fun y => { y with parent := .container c' })
      (fun _ => rfl) M x).trans hM
    refine ⟨(detached_patchNested _ _ x).trans hM₁, ?_⟩
    rw [visitMember, decl_patchNested hnest _ _ _ hM₁, decl_modifyDecl]
    by_cases hx : x = d
    · rw [if_pos ⟨hx, (size_eq_of_detached hM).symm ▸ hsize⟩, if_pos hx]
    · rw [if_neg fun h => hx h.1, if_neg hx]
  -- so every visit keeps the parent of `d` or sets it to `c`, the only container listing `d`
  have hstep : ∀ c' ∈ m.containersInOrder, ∀ (M : Module) (x : DeclId),
      x ∈ (m.container c').members → M.detached = m.detached →
      (visitMember c' M x).detached = m.detached ∧
      (((visitMember c' M x).decl d).parent = (M.decl d).parent ∨
        ((visitMember c' M x).decl d).parent = .container c) := by
    intro c' hc' M x hx hM
    obtain ⟨hdet, hparent⟩ := hvisit c' M x hM
    refine ⟨hdet, ?_⟩
    rw [hparent]
    split
    · next hxd =>
      subst hxd
      exact .inr (by rw [hone c' hc' hx])
    · exact .inl rfl
  -- a container's visit does the same
  have hcontainer : ∀ c' ∈ m.containersInOrder, ∀ M : Module, M.detached = m.detached →
      (visitContainer M c').detached = m.detached ∧
      (((visitContainer M c').decl d).parent = (M.decl d).parent ∨
        ((visitContainer M c').decl d).parent = .container c) := by
    intro c' hc' M hM
    rw [visitContainer, container_eq_of_detached hM]
    exact foldl_keeps_or (fun M' : Module => M'.detached = m.detached)
      (fun M' => (M'.decl d).parent) (· = .container c) _ _
      (fun M' x hx hM' => hstep c' hc' M' x hx hM') M hM
  -- the visit of `c` sets it, since `c` lists `d`
  have hset : ∀ M : Module, M.detached = m.detached →
      ((visitContainer M c).decl d).parent = .container c := by
    intro M hM
    rw [visitContainer, container_eq_of_detached hM]
    exact foldl_reaches (fun M' : Module => M'.detached = m.detached)
      (fun M' => (M'.decl d).parent) (· = .container c) _ _
      (fun M' x hx hM' => hstep c hc M' x hx hM') hd
      (fun M' hM' => by rw [(hvisit c M' d hM').2, if_pos rfl]) M hM
  rw [patchParents_eq_foldl]
  exact foldl_reaches (fun M : Module => M.detached = m.detached) (fun M => (M.decl d).parent)
    (· = .container c) _ _ (fun M c' hc' hM => hcontainer c' hc' M hM) hc hset _
    (detached_detached m)

/-- A declaration whose parent is a container lies in that container. -/
theorem containerOf_of_parent {d : DeclId} {c : ContainerId}
    (h : (m.decl d).parent = .container c) : m.containerOf d = some c := by
  rw [containerOf, containerOfAux, h]

/-! ## One place each -/

/-- Two entries at different places of a list both count in the sum of a function over it. -/
theorem add_le_sum_map {α : Type} (g : α → Nat) :
    ∀ (l : List α) (i j : Nat) (hi : i < l.length) (hj : j < l.length), i ≠ j →
      g l[i] + g l[j] ≤ (l.map g).sum
  | [], _, _, hi, _, _ => absurd hi (Nat.not_lt_zero _)
  | _ :: _, 0, 0, _, _, hij => absurd rfl hij
  | a :: l, 0, j + 1, _, hj, _ => by
    simp only [List.getElem_cons_zero, List.getElem_cons_succ, List.map_cons, List.sum_cons]
    exact Nat.add_le_add_left (List.le_sum_of_mem (List.mem_map_of_mem (List.getElem_mem _))) _
  | a :: l, i + 1, 0, hi, _, _ => by
    simp only [List.getElem_cons_zero, List.getElem_cons_succ, List.map_cons, List.sum_cons]
    rw [Nat.add_comm]
    exact Nat.add_le_add_left (List.le_sum_of_mem (List.mem_map_of_mem (List.getElem_mem _))) _
  | a :: l, i + 1, j + 1, hi, hj, hij => by
    simp only [List.getElem_cons_succ, List.map_cons, List.sum_cons]
    exact Nat.le_trans (add_le_sum_map g l i j _ _ fun h => hij (congrArg (· + 1) h))
      (Nat.le_add_left _ _)

/-- A container that lists something lies in range. -/
theorem lt_of_mem_members {c : ContainerId} {d : DeclId} (hd : d ∈ (m.container c).members) :
    ∃ hc : c < m.containers.size, d ∈ m.containers[c].members := by
  by_cases hc : c < m.containers.size
  · refine ⟨hc, ?_⟩
    rwa [container, Array.getElem?_eq_getElem hc, Option.getD_some] at hd
  · rw [container, Array.getElem?_eq_none (Nat.le_of_not_lt hc)] at hd
    exact absurd hd List.not_mem_nil

/-- Two positions of a list whose lists both hold `d` count `d` twice in the joined list. -/
theorem two_le_count_flatMap {α : Type} (L : List α) (f : α → List DeclId) {i j : Nat}
    (hi : i < L.length) (hj : j < L.length) (hij : i ≠ j) {d : DeclId} (hdi : d ∈ f L[i])
    (hdj : d ∈ f L[j]) : 2 ≤ (L.flatMap f).count d := by
  rw [List.count_flatMap]
  have h₁ : 0 < (f L[i]).count d := List.count_pos_iff.2 hdi
  have h₂ : 0 < (f L[j]).count d := List.count_pos_iff.2 hdj
  have hsum := add_le_sum_map (List.count d ∘ f) L i j hi hj hij
  simp only [Function.comp_apply] at hsum
  omega

section Places

variable (hplaces : ∀ d, m.places d ≤ 1)
include hplaces

/-- The entries of member lists and the `fn` nodes holding `d` number one at most together. -/
theorem count_places_le_one (d : DeclId) :
    (m.containers.toList.flatMap (·.members)).count d +
      ((List.range m.decls.size).flatMap m.nestedDecls).count d ≤ 1 := by
  have h := hplaces d
  rwa [places, placeList, List.count_append] at h

/-- Where every declaration has one place at most, one container lists a member. -/
theorem member_unique_of_places {c c' : ContainerId} {d : DeclId}
    (hd : d ∈ (m.container c).members) (hd' : d ∈ (m.container c').members) : c = c' := by
  by_contra hne
  obtain ⟨hc, hdc⟩ := lt_of_mem_members hd
  obtain ⟨hc', hdc'⟩ := lt_of_mem_members hd'
  have hlen : m.containers.toList.length = m.containers.size := Array.length_toList
  have htwo := two_le_count_flatMap m.containers.toList (·.members) (hlen ▸ hc) (hlen ▸ hc') hne
    (by rw [Array.getElem_toList]; exact hdc) (by rw [Array.getElem_toList]; exact hdc')
  have := count_places_le_one hplaces d
  omega

/-- Where every declaration has one place at most, no `fn` node holds a member. -/
theorem not_nests_member {c : ContainerId} {d : DeclId} (hd : d ∈ (m.container c).members)
    (o : DeclId) : ¬ m.Nests o d := by
  intro hod
  obtain ⟨hc, hdc⟩ := lt_of_mem_members hd
  have ho : o < m.decls.size := Nat.lt_of_not_le fun hle => not_nests_of_size_le hle hod
  have hmember : 0 < (m.containers.toList.flatMap (·.members)).count d :=
    List.count_pos_iff.2 (List.mem_flatMap.2 ⟨_, Array.getElem_mem_toList hc, hdc⟩)
  have hnested : 0 < ((List.range m.decls.size).flatMap m.nestedDecls).count d :=
    List.count_pos_iff.2 (List.mem_flatMap.2 ⟨o, List.mem_range.2 ho, hod⟩)
  have := count_places_le_one hplaces d
  omega

/-- Where every declaration has one place at most, one declaration holds a nested one. -/
theorem holder_unique {o o' d : DeclId} (hod : m.Nests o d) (ho'd : m.Nests o' d) : o = o' := by
  by_contra hne
  have ho : o < m.decls.size := Nat.lt_of_not_le fun hle => not_nests_of_size_le hle hod
  have ho' : o' < m.decls.size := Nat.lt_of_not_le fun hle => not_nests_of_size_le hle ho'd
  have hlen : (List.range m.decls.size).length = m.decls.size := List.length_range
  have htwo := two_le_count_flatMap (List.range m.decls.size) m.nestedDecls (hlen ▸ ho)
    (hlen ▸ ho') (by simpa using hne) (by rw [List.getElem_range]; exact hod)
    (by rw [List.getElem_range]; exact ho'd)
  have := count_places_le_one hplaces d
  omega

/-- A container lists each member once. -/
theorem nodup_members (c : ContainerId) : (m.container c).members.Nodup := by
  refine List.nodup_iff_count_le_one.2 fun d => ?_
  by_cases hc : c < m.containers.size
  · have hsub : (m.container c).members.Sublist (m.containers.toList.flatMap (·.members)) := by
      rw [container, Array.getElem?_eq_getElem hc, Option.getD_some, List.flatMap_def]
      exact List.sublist_flatten_of_mem (List.mem_map_of_mem (Array.getElem_mem_toList hc))
    have := count_places_le_one hplaces d
    have := hsub.count_le d
    omega
  · -- past the arena a container lists nothing
    have hnil : (m.container c).members = [] :=
      List.eq_nil_iff_forall_not_mem.2 fun x hx => hc (lt_of_mem_members hx).1
    rw [hnil]
    exact Nat.zero_le 1

/-- A declaration holds each nested declaration once. -/
theorem nodup_nestedDecls (o : DeclId) : (m.nestedDecls o).Nodup := by
  refine List.nodup_iff_count_le_one.2 fun d => ?_
  by_cases ho : o < m.decls.size
  · have hsub : (m.nestedDecls o).Sublist ((List.range m.decls.size).flatMap m.nestedDecls) := by
      rw [List.flatMap_def]
      exact List.sublist_flatten_of_mem (List.mem_map_of_mem (List.mem_range.2 ho))
    have := count_places_le_one hplaces d
    have := hsub.count_le d
    omega
  · -- past the arena a declaration holds nothing
    have hnil : m.nestedDecls o = [] :=
      List.eq_nil_iff_forall_not_mem.2 fun x hx => not_nests_of_size_le (Nat.le_of_not_lt ho) hx
    rw [hnil]
    exact Nat.zero_le 1

end Places

end Module

namespace Module.WellFormed

variable {m : Module} (hwf : m.WellFormed)
include hwf

/-- No `fn` node of a well-formed module holds a member. -/
theorem not_mem_nestedDecls {c : ContainerId} {d : DeclId} (hd : d ∈ (m.container c).members)
    (z : DeclId) : d ∉ m.nestedDecls z :=
  Module.not_nests_member hwf.places_le_one hd z

/-- A member of a well-formed module is listed by one container only. -/
theorem member_unique {c c' : ContainerId} {d : DeclId} (hd : d ∈ (m.container c).members)
    (hd' : d ∈ (m.container c').members) : c = c' :=
  Module.member_unique_of_places hwf.places_le_one hd hd'

end Module.WellFormed

end ComposeLowering
