import Mathlib.Data.Finset.Card
import ComposeLowering.Ir.Dump
import ComposeLowering.Proofs.WellFormed
import ComposeLowering.Proofs.Arena

/-!
# Ranking nested declarations

A lambda or local function is a declaration of the arena that a `fn` node of another holds.
Walks over a module follow these nodes: writing an expression writes the body of each
declaration it holds in place, a deep copy copies each one, and lowering lowers each one. A walk
along the nesting ends when the nesting has no cycle, and then no deeper than the arena is large.

`Module.AcyclicNesting` is what a front end promises: every `fn` node holds a declaration of the
arena, and no declaration is nested in itself. `Module.NestRanking m ρ` is what the walks use: a
rank that drops from a declaration to each one nested in it and never exceeds the size of the
arena. The two say the same: the number of declarations nested in a declaration, however
deeply, is such a rank (`AcyclicNesting.nestRanking`), and a rank rules out cycles
(`NestRanking.acyclicNesting`). The passes of the lowering add declarations, and each keeps a
ranking rather than acyclicity, because a new declaration takes the rank of the one it copies.

## Writing in place

`Module.writeExprAt` writes the bodies of nested declarations in place down to a depth bound and
fails with the recursion limit past it. In a ranked module the bound of a dump lies above every
rank, so dumping an expression whose nested declarations rank below the arena's size
(`dumpExpr_ne_recursionLimit`), or the signature of any declaration
(`dumpSignature_ne_recursionLimit`), never fails so.
-/

namespace ComposeLowering

namespace Expr

/-- The declaration a `fn` node holds. -/
def fnDecl? : Expr → Option DeclId
  | .fn d _ => some d
  | _ => none

@[simp] theorem fnDecl?_withTy (e : Expr) (t : Ty) : (e.withTy t).fnDecl? = e.fnDecl? := by
  cases e <;> rfl

/-- The declarations an expression holds directly: its own, for a `fn` node, then those of its
children. -/
theorem nestedFns_eq (e : Expr) :
    e.nestedFns = e.fnDecl?.toList ++ e.children.flatMap nestedFns := by
  rw [nestedFns.eq_def]
  cases e <;> simp [fnDecl?]

theorem mem_nestedFns {e : Expr} {y : DeclId} :
    y ∈ e.nestedFns ↔ e.fnDecl? = some y ∨ ∃ c ∈ e.children, y ∈ c.nestedFns := by
  rw [nestedFns_eq]
  simp [List.mem_flatMap, Option.mem_toList, eq_comm]

theorem nestedFns_subset_of_mem_children {e c : Expr} (hc : c ∈ e.children) :
    c.nestedFns ⊆ e.nestedFns :=
  fun _ hy => mem_nestedFns.2 (.inr ⟨c, hc, hy⟩)

/-- What holds of a node's own declaration and of every declaration its children hold holds of
every declaration it holds. -/
theorem forall_nestedFns {e : Expr} {Q : DeclId → Prop} (hown : ∀ y ∈ e.fnDecl?, Q y)
    (hchildren : ∀ c ∈ e.children, ∀ y ∈ c.nestedFns, Q y) : ∀ y ∈ e.nestedFns, Q y := by
  intro y hy
  rcases mem_nestedFns.1 hy with hy | ⟨c, hc, hy⟩
  · exact hown y hy
  · exact hchildren c hc y hy

@[simp] theorem nestedFns_withTy (e : Expr) (t : Ty) : (e.withTy t).nestedFns = e.nestedFns := by
  rw [nestedFns_eq (e.withTy t), fnDecl?_withTy, children_withTy, ← nestedFns_eq]

/-- The declarations an expression holds are those its nodes hold. -/
theorem mem_nestedFns_iff_nodes {e : Expr} {y : DeclId} :
    y ∈ e.nestedFns ↔ ∃ x ∈ e.nodes, x.fnDecl? = some y := by
  rw [mem_nestedFns]
  constructor
  · rintro (h | ⟨c, hc, hy⟩)
    · exact ⟨e, mem_nodes.2 (.inl rfl), h⟩
    · obtain ⟨x, hx, hxy⟩ := mem_nestedFns_iff_nodes.1 hy
      exact ⟨x, mem_nodes.2 (.inr ⟨c, hc, hx⟩), hxy⟩
  · rintro ⟨x, hx, hxy⟩
    rcases mem_nodes.1 hx with rfl | ⟨c, hc, hx⟩
    · exact .inl hxy
    · exact .inr ⟨c, hc, mem_nestedFns_iff_nodes.2 ⟨x, hx, hxy⟩⟩
termination_by sizeOf e
decreasing_by all_goals exact sizeOf_lt_of_mem_children hc

/-- A leaf that is no `fn` node holds no declaration. -/
theorem nestedFns_of_leaf {e : Expr} (hf : e.fnDecl? = none) (hc : e.children = []) :
    e.nestedFns = [] := by
  rw [nestedFns_eq, hf, hc]
  rfl

/-- An expression none of whose nodes is a `fn` node holds no declaration. -/
theorem nestedFns_eq_nil {e : Expr} (h : e.All fun x => x.fnDecl? = none) : e.nestedFns = [] :=
  List.eq_nil_iff_forall_not_mem.2 fun y hy => by
    obtain ⟨x, hx, hxy⟩ := mem_nestedFns_iff_nodes.1 hy
    rw [h x hx] at hxy
    cases hxy

/-- A property of every declaration an expression holds is a property of each of its nodes. -/
theorem forall_nestedFns_iff_all {e : Expr} {Q : DeclId → Prop} :
    (∀ y ∈ e.nestedFns, Q y) ↔ e.All fun x => ∀ y ∈ x.fnDecl?, Q y := by
  simp only [mem_nestedFns_iff_nodes, All, Option.mem_def]
  constructor
  · intro h x hx y hy
    exact h y ⟨x, hx, hy⟩
  · rintro h y ⟨x, hx, hy⟩
    exact h x hx y hy

end Expr

namespace Decl

theorem nestedFns_eq_owned (d : Decl) : d.nestedFns = d.owned.flatMap Expr.nestedFns := by
  cases hb : d.body <;> simp [nestedFns, owned, hb]

theorem mem_nestedFns {d : Decl} {y : DeclId} : y ∈ d.nestedFns ↔ ∃ e ∈ d.owned, y ∈ e.nestedFns := by
  rw [nestedFns_eq_owned, List.mem_flatMap]

end Decl

/-! ## Copies and their sources -/

/-- The declaration that `d` was copied from, by a list of (source, copy) pairs; any other
declaration is its own source. -/
def copySource (copies : List (DeclId × DeclId)) (d : DeclId) : DeclId :=
  ((copies.find? fun p => p.2 == d).map Prod.fst).getD d

variable {copies : List (DeclId × DeclId)}

theorem copySource_eq_of_mem {a b : DeclId} (hinj : ∀ a', (a', b) ∈ copies → a' = a)
    (h : (a, b) ∈ copies) : copySource copies b = a := by
  unfold copySource
  cases hf : copies.find? (fun p => p.2 == b) with
  | none => exact absurd (List.find?_eq_none.1 hf (a, b) h) (by simp)
  | some p =>
    have hpb : p.2 = b := by simpa using List.find?_some hf
    have hp : (p.1, b) ∈ copies := hpb ▸ List.mem_of_find?_eq_some hf
    exact hinj p.1 hp

theorem copySource_eq_self {b : DeclId} (h : ∀ a, (a, b) ∉ copies) : copySource copies b = b := by
  unfold copySource
  rw [List.find?_eq_none.2 fun p hp hpb => h p.1 (by simpa using (beq_iff_eq.1 hpb) ▸ hp)]
  rfl

/-- Recording a copy changes the source of that copy only. -/
theorem copySource_cons_of_ne {a b d : DeclId} (h : b ≠ d) :
    copySource ((a, b) :: copies) d = copySource copies d := by
  simp [copySource, h]

namespace Module

variable {m m' : Module} {ρ : DeclId → Nat}

theorem nests_iff {x y : DeclId} : m.Nests x y ↔ ∃ e ∈ (m.decl x).owned, y ∈ e.nestedFns :=
  Decl.mem_nestedFns

/-- A change that keeps what every declaration owns keeps the nesting. -/
theorem Agrees.nests_iff {forget : Decl → Decl} (hf : ∀ x, (forget x).owned = x.owned)
    (h : m.Agrees forget m') {x y : DeclId} : m'.Nests x y ↔ m.Nests x y := by
  rw [Module.nests_iff, Module.nests_iff, h.congr hf x]

/-- Changing containers and parents keeps the nesting. -/
theorem Reparented.nests_iff (h : m.Reparented m') {x y : DeclId} : m'.Nests x y ↔ m.Nests x y :=
  @Agrees.nests_iff m m' Decl.unparented (fun _ => rfl) h x y

/-- A declaration past the end of the arena nests nothing. -/
theorem not_nests_of_size_le {x y : DeclId} (hx : m.decls.size ≤ x) : ¬ m.Nests x y := by
  rw [Nests, nestedDecls, decl_of_size_le hx]
  exact List.not_mem_nil

/-! ## Acyclic nesting and its rankings -/

/-- What a front end promises of the nesting: every `fn` node holds a declaration of the arena,
and no declaration is nested in itself, however deeply. -/
structure AcyclicNesting (m : Module) : Prop where
  nested_lt : ∀ x y, m.Nests x y → y < m.decls.size
  acyclic : ∀ d, ¬ Relation.TransGen m.Nests d d

/-- A rank for the nesting: every `fn` node holds a declaration of the arena of a lower rank
than its holder's, and no rank exceeds the size of the arena. -/
structure NestRanking (m : Module) (ρ : DeclId → Nat) : Prop where
  nested_lt : ∀ x y, m.Nests x y → y < m.decls.size
  rank_lt : ∀ x y, m.Nests x y → ρ y < ρ x
  rank_le : ∀ d, ρ d ≤ m.decls.size

open Classical in
/-- The number of elements below `n` that a relation reaches from `d`, in one step or more. -/
noncomputable def reachCount (R : Nat → Nat → Prop) (n d : Nat) : Nat :=
  ((Finset.range n).filter fun x => Relation.TransGen R d x).card

theorem reachCount_le (R : Nat → Nat → Prop) (n d : Nat) : reachCount R n d ≤ n := by
  classical
  unfold reachCount
  exact (Finset.card_filter_le _ _).trans (Finset.card_range _).le

/-- Along a relation without cycles whose steps stay below `n`, a step reaches fewer elements:
whatever `y` reaches, `x` reaches too, and `x` reaches `y`, which `y` does not. -/
theorem reachCount_lt {R : Nat → Nat → Prop} {n : Nat} (hlt : ∀ x y, R x y → y < n)
    (hacyc : ∀ d, ¬ Relation.TransGen R d d) {x y : Nat} (hxy : R x y) :
    reachCount R n y < reachCount R n x := by
  classical
  unfold reachCount
  refine Finset.card_lt_card ((Finset.ssubset_iff_of_subset fun z hz => ?_).2 ⟨y, ?_, ?_⟩)
  · simp only [Finset.mem_filter, Finset.mem_range] at hz ⊢
    exact ⟨hz.1, .head hxy hz.2⟩
  · simp only [Finset.mem_filter, Finset.mem_range]
    exact ⟨hlt x y hxy, .single hxy⟩
  · simp only [Finset.mem_filter, Finset.mem_range, not_and]
    exact fun _ => hacyc y

open Classical in
/-- The number of declarations of the arena nested in `d`, however deeply. -/
noncomputable def nestRank (m : Module) (d : DeclId) : Nat :=
  ((Finset.range m.decls.size).filter fun x => Relation.TransGen m.Nests d x).card

theorem nestRank_le (m : Module) (d : DeclId) : m.nestRank d ≤ m.decls.size :=
  reachCount_le m.Nests _ d

/-- Everything nested in `y` is nested in its holder `x`, and `y` too, but `y` is not nested in
itself: its rank is lower. -/
theorem AcyclicNesting.nestRank_lt (h : m.AcyclicNesting) {x y : DeclId} (hxy : m.Nests x y) :
    m.nestRank y < m.nestRank x :=
  reachCount_lt h.nested_lt h.acyclic hxy

theorem AcyclicNesting.nestRanking (h : m.AcyclicNesting) : m.NestRanking m.nestRank :=
  ⟨h.nested_lt, fun _ _ hxy => h.nestRank_lt hxy, m.nestRank_le⟩

theorem NestRanking.acyclicNesting (h : m.NestRanking ρ) : m.AcyclicNesting :=
  ⟨h.nested_lt, not_transGen_self_of_rank ρ h.rank_lt⟩

/-- A module with an acyclic nesting has a ranking. -/
theorem AcyclicNesting.exists_nestRanking (h : m.AcyclicNesting) : ∃ ρ, m.NestRanking ρ :=
  ⟨_, h.nestRanking⟩

/-- A ranking survives an edit that does not shrink the arena and nests nothing new. -/
theorem NestRanking.of_nests (h : m.NestRanking ρ) (hsize : m.decls.size ≤ m'.decls.size)
    (hnests : ∀ x y, m'.Nests x y → m.Nests x y) : m'.NestRanking ρ :=
  ⟨fun x y hxy => Nat.lt_of_lt_of_le (h.nested_lt x y (hnests x y hxy)) hsize,
    fun x y hxy => h.rank_lt x y (hnests x y hxy), fun d => (h.rank_le d).trans hsize⟩

/-- A ranking survives a change that keeps what every declaration owns. -/
theorem NestRanking.of_agrees {forget : Decl → Decl} (h : m.NestRanking ρ)
    (ha : m.Agrees forget m') (hf : ∀ x, (forget x).owned = x.owned) : m'.NestRanking ρ :=
  h.of_nests (Nat.le_of_eq ha.size_eq.symm) fun _ _ hxy => (ha.nests_iff hf).1 hxy

/-- `AcyclicNesting`, computed: every declaration of the arena holds declarations of the arena,
and the chain depth drops along the nesting. -/
def checkNesting (m : Module) : Bool :=
  (List.range m.decls.size).all (fun x => (m.nestedDecls x).all (· < m.decls.size)) &&
    m.rankedB m.nestedDecls

/-- A module that `checkNesting` accepts has an acyclic nesting. -/
theorem acyclicNesting_of_check (h : m.checkNesting = true) : m.AcyclicNesting := by
  simp only [checkNesting, Bool.and_eq_true, List.all_eq_true, List.mem_range,
    decide_eq_true_eq] at h
  refine ⟨fun x y hxy => ?_, not_transGen_of_ranked (fun d hd => ?_) h.2⟩
  · have hx : x < m.decls.size := Nat.lt_of_not_le fun hle => not_nests_of_size_le hle hxy
    exact h.1 x hx y hxy
  · rw [nestedDecls, decl_of_size_le hd]
    rfl

/-! ## Edits of the arena -/

theorem nests_setDecl {i x y : DeclId} {d : Decl} (h : (m.setDecl i d).Nests x y) :
    (i = x ∧ y ∈ d.nestedFns) ∨ (i ≠ x ∧ m.Nests x y) := by
  simp only [Nests, nestedDecls, decl_setDecl] at h
  split at h
  · exact .inl ⟨‹i = x ∧ _›.1, h⟩
  · rename_i hne
    refine .inr ⟨fun hix => hne ⟨hix, Nat.lt_of_not_le fun hle => ?_⟩, h⟩
    exact not_nests_of_size_le hle h

theorem nests_modifyDecl {i x y : DeclId} {f : Decl → Decl} (h : (m.modifyDecl i f).Nests x y) :
    (i = x ∧ y ∈ (f (m.decl x)).nestedFns) ∨ (i ≠ x ∧ m.Nests x y) := by
  simp only [Nests, nestedDecls, decl_modifyDecl] at h
  split at h
  · exact .inl ⟨‹i = x ∧ _›.1, h⟩
  · rename_i hne
    refine .inr ⟨fun hix => hne ⟨hix, Nat.lt_of_not_le fun hle => ?_⟩, h⟩
    exact not_nests_of_size_le hle h

/-- An edit of one declaration that keeps its parameter defaults and body nests nothing new. -/
theorem nests_modifyDecl_of_owned {i x y : DeclId} {f : Decl → Decl}
    (hf : ∀ d, (f d).owned = d.owned) (h : (m.modifyDecl i f).Nests x y) : m.Nests x y := by
  rcases nests_modifyDecl h with ⟨rfl, h⟩ | ⟨-, h⟩
  · rwa [Decl.mem_nestedFns, hf, ← Decl.mem_nestedFns] at h
  · exact h

theorem nests_allocDecl {x y : DeclId} {d : Decl} (h : (m.allocDecl d).1.Nests x y) :
    (x = m.decls.size ∧ y ∈ d.nestedFns) ∨ m.Nests x y := by
  simp only [Nests, nestedDecls, decl_allocDecl] at h
  split at h
  · exact .inl ⟨‹_›, h⟩
  · exact .inr h

/-- An edit of one declaration after which it holds only declarations it held keeps a
ranking. -/
theorem NestRanking.modifyDecl (h : m.NestRanking ρ) {i : DeclId} {f : Decl → Decl}
    (hf : ∀ y ∈ (f (m.decl i)).nestedFns, y ∈ (m.decl i).nestedFns) :
    (m.modifyDecl i f).NestRanking ρ := by
  refine h.of_nests (Nat.le_of_eq (decls_size_modifyDecl m i f).symm) fun x y hxy => ?_
  rcases nests_modifyDecl hxy with ⟨rfl, hy⟩ | ⟨-, hy⟩
  · exact hf y hy
  · exact hy

/-- Taking out a declaration's defaults and body leaves it nesting nothing. -/
theorem nests_takeExprs {i x y : DeclId} (h : (m.takeExprs i).1.Nests x y) :
    x ≠ i ∧ m.Nests x y := by
  rw [takeExprs_fst] at h
  rcases nests_setDecl h with ⟨-, h⟩ | ⟨hix, h⟩
  · simp [Decl.nestedFns] at h
  · exact ⟨Ne.symm hix, h⟩

/-- Putting defaults and a body into a declaration nests what they hold, and nothing else new. -/
theorem nests_putExprs {i x y : DeclId} {xs : DeclExprs} (h : (m.putExprs i xs).Nests x y) :
    (x = i ∧ ((∃ o ∈ xs.defaults, ∃ e ∈ o, y ∈ e.nestedFns) ∨ ∃ e ∈ xs.body, y ∈ e.nestedFns)) ∨
      m.Nests x y := by
  rcases nests_modifyDecl h with ⟨rfl, h⟩ | ⟨-, h⟩
  · obtain ⟨e, he, hy⟩ := Decl.mem_nestedFns.1 h
    simp only [Decl.owned, List.mem_append, Option.mem_toList] at he
    rcases he with he | he
    · rcases mem_owned_putDefaults he with he | he
      · obtain ⟨o, ho, heo⟩ := List.mem_filterMap.1 he
        exact .inl ⟨rfl, .inl ⟨o, ho, e, heo, hy⟩⟩
      · exact .inr (Decl.mem_nestedFns.2 ⟨e, List.mem_append_left _ he, hy⟩)
    · exact .inl ⟨rfl, .inr ⟨e, he, hy⟩⟩
  · exact .inr h

/-- Taking out a declaration's defaults and body keeps a ranking. -/
theorem NestRanking.takeExprs (h : m.NestRanking ρ) (i : DeclId) :
    (m.takeExprs i).1.NestRanking ρ :=
  h.of_nests (by rw [takeExprs_fst, decls_size_setDecl]) fun _ _ hxy => (nests_takeExprs hxy).2

/-- Putting into `i` defaults and a body that hold declarations of the arena ranked below `i`
keeps a ranking. -/
theorem NestRanking.putExprs (h : m.NestRanking ρ) {i : DeclId} {xs : DeclExprs}
    (hxs : ∀ y, ((∃ o ∈ xs.defaults, ∃ e ∈ o, y ∈ e.nestedFns) ∨ ∃ e ∈ xs.body, y ∈ e.nestedFns) →
      y < m.decls.size ∧ ρ y < ρ i) : (m.putExprs i xs).NestRanking ρ := by
  have hsize : (m.putExprs i xs).decls.size = m.decls.size := decls_size_modifyDecl _ _ _
  refine ⟨fun x y hxy => ?_, fun x y hxy => ?_, fun d => hsize ▸ h.rank_le d⟩
  · rcases nests_putExprs hxy with ⟨-, hy⟩ | hxy
    · exact hsize ▸ (hxs y hy).1
    · exact hsize ▸ h.nested_lt x y hxy
  · rcases nests_putExprs hxy with ⟨rfl, hy⟩ | hxy
    · exact (hxs y hy).2
    · exact h.rank_lt x y hxy

/-! ## Writing in place -/

section Except

variable {ε α β : Type} {b : ε}

theorem except_pure_ne_error (a : α) : (pure a : Except ε α) ≠ .error b := nofun

theorem except_bind_ne_error {x : Except ε α} {f : α → Except ε β} (hx : x ≠ .error b)
    (hf : ∀ a, f a ≠ .error b) : x >>= f ≠ .error b := by
  cases x with
  | error e => exact fun h => hx (by cases h; rfl)
  | ok a => exact hf a

theorem except_mapM_ne_error {f : α → Except ε β} :
    ∀ {xs : List α}, (∀ a ∈ xs, f a ≠ .error b) → xs.mapM f ≠ .error b
  | [], _ => except_pure_ne_error _
  | a :: xs, hf => by
    rw [List.mapM_cons]
    exact except_bind_ne_error (hf a List.mem_cons_self) fun _ =>
      except_bind_ne_error (except_mapM_ne_error fun a' ha' => hf a' (List.mem_cons_of_mem _ ha'))
        fun _ => except_pure_ne_error _

end Except

theorem valueName_ne_recursionLimit (v : ValueId) : m.valueName v ≠ .error .recursionLimit := by
  unfold valueName
  split <;> simp

/-- A written expression fails with the recursion limit only where writing one of the
declarations it holds does. -/
theorem writeExprWith_ne_recursionLimit {nested : DeclId → Nat → Except Fault String}
    (level : Nat) (e : Expr)
    (hnested : ∀ y ∈ e.nestedFns, ∀ lvl, nested y lvl ≠ .error .recursionLimit) :
    m.writeExprWith nested level e ≠ .error .recursionLimit := by
  have hchild : ∀ c ∈ e.children, ∀ lvl, m.writeExprWith nested lvl c ≠ .error .recursionLimit :=
    fun c hc lvl => writeExprWith_ne_recursionLimit lvl c
      fun y hy => hnested y (Expr.nestedFns_subset_of_mem_children hc hy)
  rw [writeExprWith.eq_def]
  cases e with
  | const c t => exact except_pure_ne_error _
  | get v t => exact m.valueName_ne_recursionLimit v
  | maskBit v b t =>
    exact except_bind_ne_error (m.valueName_ne_recursionLimit v) fun _ => except_pure_ne_error _
  | fn d t => exact hnested d (Expr.mem_nestedFns.2 (.inl rfl)) level
  | set v x t | letVal v x t =>
    exact except_bind_ne_error (m.valueName_ne_recursionLimit v) fun _ =>
      except_bind_ne_error (hchild x (by simp [Expr.children]) level) fun _ =>
        except_pure_ne_error _
  | ret r x t | inlineNew x t =>
    exact except_bind_ne_error (hchild x (by simp [Expr.children]) level) fun _ =>
      except_pure_ne_error _
  | block xs t =>
    refine except_bind_ne_error (except_mapM_ne_error ?_) fun _ => except_pure_ne_error _
    rintro ⟨x, hx⟩ -
    exact except_bind_ne_error (hchild x (by simpa [Expr.children] using hx) _) fun _ =>
      except_pure_ne_error _
  | composite o xs t | vararg xs t =>
    refine except_bind_ne_error (except_mapM_ne_error ?_) fun _ => except_pure_ne_error _
    rintro ⟨x, hx⟩ -
    exact hchild x (by simpa [Expr.children] using hx) level
  | ite c a b t =>
    refine except_bind_ne_error (hchild c (by simp [Expr.children]) level) fun _ =>
      except_bind_ne_error (hchild a (by simp [Expr.children]) level) fun _ => ?_
    dsimp only
    cases b with
    | none => exact except_bind_ne_error (except_pure_ne_error _) fun _ => except_pure_ne_error _
    | some y =>
      exact except_bind_ne_error (hchild y (by simp [Expr.children]) level) fun _ =>
        except_bind_ne_error (except_pure_ne_error _) fun _ => except_pure_ne_error _
  | call tgt d x ta args cc t =>
    -- the receiver first, then the arguments, each written where it is given
    have hargs : ∀ a ∈ args, ∀ y ∈ a, m.writeExprWith nested level y ≠ .error .recursionLimit :=
      fun a ha y hy => hchild y (by
        simp only [Expr.children, List.mem_append, List.mem_filterMap, id]
        exact .inr ⟨a, ha, hy⟩) level
    dsimp only
    split
    all_goals
      first
        | refine except_bind_ne_error (except_pure_ne_error _) fun _ =>
            except_bind_ne_error (except_mapM_ne_error ?_) fun _ => except_pure_ne_error _
        | refine except_bind_ne_error (hchild _ (by simp [Expr.children]) level) fun _ =>
            except_bind_ne_error (except_pure_ne_error _) fun _ =>
              except_bind_ne_error (except_mapM_ne_error ?_) fun _ => except_pure_ne_error _
      rintro ⟨o, ho⟩ -
      cases o with
      | none => exact except_pure_ne_error _
      | some a => exact hargs _ ho a rfl
termination_by sizeOf e
decreasing_by exact Expr.sizeOf_lt_of_mem_children hc

/-- In a ranked module, writing an expression whose nested declarations rank below `k`, with
the depth bound `k + 1`, never reaches the bound: the body of a declaration of rank below `k`
holds declarations of rank below `k - 1`. -/
theorem NestRanking.writeExprAt_ne_recursionLimit (h : m.NestRanking ρ) :
    ∀ (k level : Nat) (e : Expr), (∀ y ∈ e.nestedFns, ρ y < k) →
      m.writeExprAt (k + 1) level e ≠ .error .recursionLimit
  | 0, level, e, he => by
    rw [writeExprAt]
    exact writeExprWith_ne_recursionLimit level e fun y hy => absurd (he y hy) (Nat.not_lt_zero _)
  | k + 1, level, e, he => by
    rw [writeExprAt]
    refine writeExprWith_ne_recursionLimit level e fun y hy lvl => ?_
    dsimp only
    split
    · rename_i b hb
      refine except_bind_ne_error (h.writeExprAt_ne_recursionLimit k lvl b fun z hz => ?_) fun _ =>
        except_pure_ne_error _
      have hyz : m.Nests y z := nests_iff.2 ⟨b, by simp [Decl.owned, hb], hz⟩
      exact Nat.lt_of_lt_of_le (h.rank_lt y z hyz) (Nat.le_of_lt_succ (he y hy))
    · exact except_bind_ne_error (except_pure_ne_error _) fun _ => except_pure_ne_error _

/-- In a ranked module, dumping an expression whose nested declarations rank below the size of
the arena never reaches the recursion limit. -/
theorem NestRanking.dumpExpr_ne_recursionLimit (h : m.NestRanking ρ) {e : Expr}
    (he : ∀ y ∈ e.nestedFns, ρ y < m.decls.size) : m.dumpExpr e ≠ .error .recursionLimit :=
  h.writeExprAt_ne_recursionLimit _ 0 e he

/-- In a ranked module, dumping the signature of any declaration never reaches the recursion
limit: the declarations its defaults hold rank below it. -/
theorem NestRanking.dumpSignature_ne_recursionLimit (h : m.NestRanking ρ) (d : DeclId) :
    m.dumpSignature d ≠ .error .recursionLimit := by
  unfold dumpSignature
  refine except_bind_ne_error (except_mapM_ne_error fun p hp => ?_) fun _ => except_pure_ne_error _
  unfold dumpParam
  split
  · rename_i e he
    refine except_bind_ne_error (h.dumpExpr_ne_recursionLimit fun y hy => ?_) fun _ =>
      except_pure_ne_error _
    have hdy : m.Nests d y :=
      nests_iff.2 ⟨e, List.mem_append_left _ (List.mem_filterMap.2 ⟨p, hp, he⟩), hy⟩
    exact Nat.lt_of_lt_of_le (h.rank_lt d y hdy) (h.rank_le d)
  · exact except_pure_ne_error _

end Module

end ComposeLowering
