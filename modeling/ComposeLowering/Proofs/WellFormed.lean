import Mathlib.Logic.Relation
import ComposeLowering.Ir.Module
import ComposeLowering.Lowering.Synthetic

/-!
# Well-formed modules

Lowering is written for modules that an upstream front end has already checked. This file
states what that front end promises, as one predicate `Module.WellFormed` with four groups of
conditions.

* **Calls fit their callees.** A call of a declaration has one argument slot per parameter and
  leaves a slot out only when the callee is no constructor and it, or a declaration it overrides
  however indirectly, declares a default value; an `invoke` has as many arguments as its arity.
  A call of a lambda or local function occurs only inside the declaration that holds it, and
  only after its `fn` node in the order lowering meets them.
* **References stay in scope.** A `return` leaves the declaration that owns it or one enclosing
  it, and a read, write or mask test of a parameter or receiver occurs inside the declaration
  that binds it or one nested in it.
* **Declarations form a forest.** Each declaration has at most one place (an entry in a
  container's member list or a `fn` node of another declaration), none is nested in itself,
  and overriding has no cycle.
* **Nothing is lowered yet.** No declaration carries a decoy annotation of either kind, and no
  receiver or parameter carries a synthetic origin or the composer's name: exactly what the
  composer pass would read as a declaration lowered before.

## The order of a nested call

The composer pass lowers a declaration's defaults and body in one walk that enters a nested
declaration at its `fn` node and rewrites a call after its receivers and arguments. `trace`
lists the nodes in the order of that walk, so "after its `fn` node" is a statement about
positions in the trace.

## Checking a concrete module

Every condition quantifies over all declarations and reads closures of the nesting and
overriding relations, so it is no decision procedure as it stands. `checkWellFormed` computes
each condition on the arena, with bounded searches for the closures and a ranking for the
acyclic relations, and `wellFormed_of_check` shows that a module it accepts is well formed.
-/

namespace ComposeLowering

namespace Expr

/-- The nodes of an expression, the expression first and its children's nodes after it in
traversal order; nested declarations are not entered. -/
def nodes (e : Expr) : List Expr :=
  e :: e.children.attach.flatMap fun ⟨c, _⟩ => c.nodes
  termination_by sizeOf e
  decreasing_by exact sizeOf_lt_of_mem_children (by assumption)

/-- The nodes of an expression in the order a lowering walk finishes them: a call after its
receivers and arguments, every other node before its children. -/
def steps (e : Expr) : List Expr :=
  let inner := e.children.attach.flatMap fun ⟨c, _⟩ => c.steps
  match e with
  | .call .. => inner ++ [e]
  | _ => e :: inner
  termination_by sizeOf e
  decreasing_by exact sizeOf_lt_of_mem_children (by assumption)

/-- The call a node makes. -/
def call? : Expr → Option Call
  | .call tgt d x ta args cc _ => some ⟨tgt, d, x, ta, args, cc⟩
  | _ => none

/-- The local value a node reads, writes or tests a bit of. -/
def valueRef? : Expr → Option ValueId
  | .get v _ | .set v _ _ | .maskBit v _ _ => some v
  | _ => none

/-- The declaration a node returns from. -/
def returnTarget? : Expr → Option DeclId
  | .ret r _ _ => some r
  | _ => none

/-- Whether a node calls the declaration `d`. -/
def callsDecl (d : DeclId) (e : Expr) : Bool :=
  match e.call? with
  | some c => c.target == .decl d
  | none => false

/-- Whether a node is the `fn` node of the declaration `d`. -/
def isFnOf (d : DeclId) : Expr → Bool
  | .fn x _ => x == d
  | _ => false

end Expr

namespace Decl

/-- The expressions a declaration owns: its parameter defaults in order, then its body. -/
def owned (d : Decl) : List Expr := d.params.filterMap (·.default) ++ d.body.toList

/-- The nodes of the expressions a declaration owns, nested declarations not entered. -/
def nodes (d : Decl) : List Expr := d.owned.flatMap Expr.nodes

/-- The values a declaration binds as receivers and parameters. -/
def boundValues (d : Decl) : List ValueId := d.explicitParams.map (·.value)

end Decl

namespace Annotation

/-- Whether an annotation marks a decoy stub or a decoy implementation. -/
def isDecoyMark : Annotation → Bool
  | .decoy .. | .decoyImpl _ => true
  | _ => false

end Annotation

namespace Module

/-! ## Nesting and overriding -/

/-- `outer` holds the lambda or local function `inner` directly, as a `fn` node of one of its
defaults or its body. -/
def Nests (m : Module) (outer inner : DeclId) : Prop := inner ∈ m.nestedDecls outer

/-- `d` overrides `o` directly. -/
def Overrides (m : Module) (d o : DeclId) : Prop := o ∈ (m.decl d).overrides

/-- A declaration that declares a default value, or overrides, however indirectly, one that
does. -/
inductive DeclaresDefault (m : Module) : DeclId → Prop
  | own {d : DeclId} : (m.decl d).hasDefaultValues = true → DeclaresDefault m d
  | inherited {d o : DeclId} : m.Overrides d o → DeclaresDefault m o → DeclaresDefault m d

/-- Every place a declaration takes: the entries of all containers' member lists, then the
`fn` nodes of all declarations. -/
def placeList (m : Module) : List DeclId :=
  m.containers.toList.flatMap (·.members) ++ (List.range m.decls.size).flatMap m.nestedDecls

/-- The number of places a declaration has. -/
def places (m : Module) (d : DeclId) : Nat := m.placeList.count d

/-- The nodes met by the walk that lowers a declaration, to the given depth: each owned
expression in the order its nodes are finished, a `fn` node followed by the walk of the
declaration it holds. -/
def trace (m : Module) : Nat → DeclId → List Expr
  | 0, _ => []
  | fuel + 1, d => (m.decl d).owned.flatMap fun e => e.steps.flatMap fun x =>
      x :: match x with
        | .fn inner _ => m.trace fuel inner
        | _ => []

/-! ## The four groups of conditions -/

/-- A call fits its callee: a call of a declaration has one slot per parameter and leaves a
slot out only when the callee is no constructor and declares a default itself or through what
it overrides; an `invoke` has as many arguments as its arity. -/
def CallFits (m : Module) (c : Call) : Prop :=
  match c.target with
  | .decl t => c.args.length = (m.decl t).params.length ∧
      (none ∈ c.args → (m.decl t).kind ≠ .constructor ∧ m.DeclaresDefault t)
  | .invoke n => c.args.length = n
  | .decoy => True

/-- The calls of the lambda or local function `inner` held by `outer` stay inside `outer`, and
in the walk that lowers `outer` each comes after a `fn` node of `inner`. -/
def NestedCallsFollow (m : Module) (outer inner : DeclId) : Prop :=
  (∀ d, ∀ e ∈ (m.decl d).nodes, e.callsDecl inner = true →
      d = outer ∨ Relation.TransGen m.Nests outer d) ∧
    let t := m.trace (m.decls.size + 1) outer
    ∀ j (h : j < t.length), t[j].callsDecl inner = true → (t.take j).any (Expr.isFnOf inner) = true

/-- What the front end promises about a module handed to lowering. -/
structure WellFormed (m : Module) : Prop where
  /-- Every call fits its callee. -/
  calls_fit : ∀ d, ∀ e ∈ (m.decl d).nodes, ∀ c, e.call? = some c → m.CallFits c
  /-- Nested declarations are called from inside their holder, after their `fn` node. -/
  nested_calls_follow : ∀ outer inner, m.Nests outer inner → m.NestedCallsFollow outer inner
  /-- A `return` leaves its own declaration or one enclosing it. -/
  returns_enclose : ∀ d, ∀ e ∈ (m.decl d).nodes, ∀ r, e.returnTarget? = some r →
    r = d ∨ Relation.TransGen m.Nests r d
  /-- A parameter or receiver is used only inside the declaration binding it. -/
  values_enclose : ∀ d, ∀ e ∈ (m.decl d).nodes, ∀ v, e.valueRef? = some v →
    ∀ p, v ∈ (m.decl p).boundValues → p = d ∨ Relation.TransGen m.Nests p d
  /-- Every declaration has at most one place. -/
  places_le_one : ∀ d, m.places d ≤ 1
  /-- No declaration is nested in itself. -/
  nesting_acyclic : ∀ d, ¬ Relation.TransGen m.Nests d d
  /-- Overriding has no cycle. -/
  overrides_acyclic : ∀ d, ¬ Relation.TransGen m.Overrides d d
  /-- No declaration is a decoy stub or implementation yet. -/
  no_decoy_marks : ∀ d, ∀ a ∈ (m.decl d).annotations, a.isDecoyMark = false
  /-- No receiver or parameter is synthetic or carries the composer's name. -/
  not_lowered : ∀ d, ∀ p ∈ (m.decl d).explicitParams,
    p.origin.isSynthetic = false ∧ p.name ≠ SyntheticParam.composerName

/-! ## Checking a concrete module -/

/-- An index past the end of the arena reads as the default declaration. -/
theorem decl_of_size_le {m : Module} {d : DeclId} (h : m.decls.size ≤ d) : m.decl d = default := by
  simp [decl, h]

/-- Whether a declaration declares a default, itself or through what it overrides, searching
to the given depth. -/
def declaresDefaultB (m : Module) : Nat → DeclId → Bool
  | 0, _ => false
  | fuel + 1, d => (m.decl d).hasDefaultValues || (m.decl d).overrides.any (m.declaresDefaultB fuel)

theorem declaresDefault_of_check {m : Module} :
    ∀ {fuel d}, m.declaresDefaultB fuel d = true → m.DeclaresDefault d
  | 0, _, h => by simp [declaresDefaultB] at h
  | fuel + 1, d, h => by
    simp only [declaresDefaultB, Bool.or_eq_true, List.any_eq_true] at h
    rcases h with h | ⟨o, ho, hrec⟩
    · exact .own h
    · exact .inherited ho (declaresDefault_of_check hrec)

/-- Whether `outer` holds `d` through one nesting or more, searching to the given depth. -/
def enclosesB (m : Module) : Nat → DeclId → DeclId → Bool
  | 0, _, _ => false
  | fuel + 1, outer, d => (m.nestedDecls outer).any fun n => n == d || m.enclosesB fuel n d

theorem transGen_nests_of_check {m : Module} :
    ∀ {fuel outer d}, m.enclosesB fuel outer d = true → Relation.TransGen m.Nests outer d
  | 0, _, _, h => by simp [enclosesB] at h
  | fuel + 1, outer, d, h => by
    simp only [enclosesB, List.any_eq_true, Bool.or_eq_true, beq_iff_eq] at h
    obtain ⟨n, hn, rfl | hrec⟩ := h
    · exact .single hn
    · exact .head hn (transGen_nests_of_check hrec)

/-- A relation along which a ranking strictly decreases has no cycle. -/
theorem not_transGen_self_of_rank {r : DeclId → DeclId → Prop} (rank : DeclId → Nat)
    (h : ∀ a b, r a b → rank b < rank a) (d : DeclId) : ¬ Relation.TransGen r d d := by
  have key : ∀ a b, Relation.TransGen r a b → rank b < rank a := by
    intro a b hab
    induction hab with
    | single hab => exact h _ _ hab
    | tail _ hbc ih => exact Nat.lt_trans (h _ _ hbc) ih
  exact fun hd => Nat.lt_irrefl _ (key d d hd)

/-- The length of the longest chain of steps from a declaration, to the given depth. -/
def chainDepth (succ : DeclId → List DeclId) : Nat → DeclId → Nat
  | 0, _ => 0
  | fuel + 1, d => ((succ d).map (chainDepth succ fuel)).foldl max 0 + 1

/-- Whether every step from a declaration of the arena decreases the chain depth. -/
def rankedB (m : Module) (succ : DeclId → List DeclId) : Bool :=
  (List.range m.decls.size).all fun d => (succ d).all fun s =>
    chainDepth succ (m.decls.size + 1) s < chainDepth succ (m.decls.size + 1) d

/-- Steps that leave only declarations of the arena, and decrease the chain depth there, form
no cycle. -/
theorem not_transGen_of_ranked {m : Module} {succ : DeclId → List DeclId}
    (hout : ∀ d, m.decls.size ≤ d → succ d = []) (h : m.rankedB succ = true) (d : DeclId) :
    ¬ Relation.TransGen (fun a b => b ∈ succ a) d d := by
  refine not_transGen_self_of_rank (chainDepth succ (m.decls.size + 1)) (fun a b hab => ?_) d
  have ha : a < m.decls.size := by
    refine Nat.lt_of_not_le fun hle => ?_
    rw [hout a hle] at hab
    exact List.not_mem_nil hab
  simp only [rankedB, List.all_eq_true, List.mem_range, decide_eq_true_eq] at h
  exact h a ha b hab

/-- `CallFits`, computed. -/
def callFitsB (m : Module) (c : Call) : Bool :=
  match c.target with
  | .decl t => c.args.length == (m.decl t).params.length &&
      (!c.args.any Option.isNone ||
        ((m.decl t).kind != .constructor && m.declaresDefaultB (m.decls.size + 1) t))
  | .invoke n => c.args.length == n
  | .decoy => true

theorem callFits_of_check {m : Module} {c : Call} (h : m.callFitsB c = true) : m.CallFits c := by
  unfold callFitsB at h
  unfold CallFits
  split at h
  · simp only [Bool.and_eq_true, beq_iff_eq, Bool.or_eq_true, Bool.not_eq_true',
      List.any_eq_false, bne_iff_ne, ne_eq] at h
    obtain ⟨hlen, hnone⟩ := h
    refine ⟨hlen, fun hmem => ?_⟩
    rcases hnone with hnone | ⟨hk, hd⟩
    · exact absurd rfl (hnone none hmem)
    · exact ⟨hk, declaresDefault_of_check hd⟩
  · simpa using h
  · trivial

/-- `NestedCallsFollow`, computed. -/
def nestedCallsFollowB (m : Module) (outer inner : DeclId) : Bool :=
  (List.range m.decls.size).all (fun d => (m.decl d).nodes.all fun e =>
      !e.callsDecl inner || d == outer || m.enclosesB (m.decls.size + 1) outer d) &&
    let t := m.trace (m.decls.size + 1) outer
    (List.range t.length).all fun j => match t[j]? with
      | some x => !x.callsDecl inner || (t.take j).any (Expr.isFnOf inner)
      | none => true

theorem nestedCallsFollow_of_check {m : Module} {outer inner : DeclId}
    (h : m.nestedCallsFollowB outer inner = true) : m.NestedCallsFollow outer inner := by
  simp only [nestedCallsFollowB, Bool.and_eq_true, List.all_eq_true, List.mem_range] at h
  obtain ⟨hcalls, horder⟩ := h
  refine ⟨fun d e he hcall => ?_, fun j hj hcall => ?_⟩
  · by_cases hd : d < m.decls.size
    · have := hcalls d hd e he
      simp only [hcall, Bool.not_true, Bool.false_or, Bool.or_eq_true, beq_iff_eq] at this
      exact this.imp id transGen_nests_of_check
    · rw [decl_of_size_le (Nat.le_of_not_lt hd)] at he
      exact absurd he List.not_mem_nil
  · have := horder j hj
    simp only [List.getElem?_eq_getElem hj, hcall, Bool.not_true, Bool.false_or] at this
    exact this

/-- `WellFormed`, computed on the arena: the conditions on the nodes of every declaration, the
order of nested calls, one place per declaration, rankings for nesting and overriding, and the
marks of declarations and parameters. -/
def checkWellFormed (m : Module) : Bool :=
  let ds := List.range m.decls.size
  let encl := m.enclosesB (m.decls.size + 1)
  ds.all (fun d => (m.decl d).nodes.all fun e =>
      (match e.call? with
        | some c => m.callFitsB c
        | none => true) &&
      (match e.returnTarget? with
        | some r => r == d || encl r d
        | none => true) &&
      (match e.valueRef? with
        | some v => ds.all fun p => !(m.decl p).boundValues.contains v || p == d || encl p d
        | none => true)) &&
    ds.all (fun outer => (m.nestedDecls outer).all (m.nestedCallsFollowB outer)) &&
    decide m.placeList.Nodup &&
    m.rankedB m.nestedDecls && m.rankedB (fun d => (m.decl d).overrides) &&
    ds.all fun d => (m.decl d).annotations.all (fun a => !a.isDecoyMark) &&
      (m.decl d).explicitParams.all fun p =>
        !p.origin.isSynthetic && p.name != SyntheticParam.composerName

/-- A module that `checkWellFormed` accepts is well formed. -/
theorem wellFormed_of_check {m : Module} (h : m.checkWellFormed = true) : m.WellFormed := by
  simp only [checkWellFormed, Bool.and_eq_true, List.all_eq_true, List.mem_range,
    decide_eq_true_eq] at h
  obtain ⟨⟨⟨⟨⟨hnodes, hnested⟩, hnodup⟩, hnest⟩, hover⟩, hmarks⟩ := h
  -- a declaration past the end of the arena owns, binds and nests nothing
  have hout : ∀ d, ¬ d < m.decls.size → m.decl d = default :=
    fun d hd => decl_of_size_le (Nat.le_of_not_lt hd)
  have hin : ∀ d, ∀ e ∈ (m.decl d).nodes, d < m.decls.size := by
    intro d e he
    refine Nat.lt_of_not_le fun hle => ?_
    rw [decl_of_size_le hle] at he
    exact List.not_mem_nil he
  refine ⟨fun d e he c hc => ?_, fun outer inner hni => ?_, fun d e he r hr => ?_,
    fun d e he v hv p hp => ?_, fun d => ?_, ?_, ?_, fun d a ha => ?_, fun d p hp => ?_⟩
  · have := (hnodes d (hin d e he) e he).1.1
    rw [hc] at this
    exact callFits_of_check this
  · have houter : outer < m.decls.size := by
      refine Nat.lt_of_not_le fun hle => ?_
      simp only [Nests, nestedDecls, decl_of_size_le hle] at hni
      exact List.not_mem_nil hni
    exact nestedCallsFollow_of_check (hnested outer houter inner hni)
  · have := (hnodes d (hin d e he) e he).1.2
    simp only [hr, Bool.or_eq_true, beq_iff_eq] at this
    exact this.imp id transGen_nests_of_check
  · have hp' : p < m.decls.size := by
      refine Nat.lt_of_not_le fun hle => ?_
      rw [decl_of_size_le hle] at hp
      exact List.not_mem_nil hp
    have := (hnodes d (hin d e he) e he).2
    simp only [hv, List.all_eq_true, List.mem_range] at this
    have hpd := this p hp'
    simp only [List.contains_iff_mem.mpr hp, Bool.not_true, Bool.false_or, Bool.or_eq_true,
      beq_iff_eq] at hpd
    exact hpd.imp id transGen_nests_of_check
  · exact List.nodup_iff_count.mp hnodup d
  · exact not_transGen_of_ranked (fun d hd => by rw [nestedDecls, decl_of_size_le hd]; rfl) hnest
  · exact not_transGen_of_ranked (fun d hd => by rw [decl_of_size_le hd]; rfl) hover
  · by_cases hd : d < m.decls.size
    · simpa using (hmarks d hd).1 a ha
    · rw [hout d hd] at ha
      exact absurd ha List.not_mem_nil
  · by_cases hd : d < m.decls.size
    · simpa using (hmarks d hd).2 p hp
    · rw [hout d hd] at hp
      exact absurd hp List.not_mem_nil

end Module

end ComposeLowering
