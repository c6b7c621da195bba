import Mathlib
import ComposeLowering.Proofs.Decoy.Substitute

/-!
# Renamings and the order of a walk

A declaration tree binds indices of three arenas: its declarations, the values of its receivers,
parameters and `let`s, and its type parameters. A deep copy walks the tree once and records a
fresh index for each binding as it meets it, so whether a reference inside the tree is renamed
depends on the order of the walk. This module states that order and what a renaming does.

`Module.declOccurrences` lists the bindings and references of a declaration tree in the order
the copier meets them: the type parameters, the receivers and parameters (each value, then its
types), the return type and inline argument, then the declaration itself, then its defaults and
body, node by node (`Expr.occurrences`: the node's type, what the node reads, the children in
order, then a `let`'s binding or a call's target and type arguments; a nested declaration's
walk stands where its `fn` node is). The references inside a type are those substitution looks
at (`Ty.paramRefs`): not the underlying type of an inline class.

A walk is `Scoped` when every reference to a name it binds comes after that binding. A
`Renaming` holds three lists of pairs, the latest entry first, and renames an index by its entry
or keeps it; `Renaming.expr` and `Renaming.copy` rename every reference of an expression and a
declaration.
-/

namespace ComposeLowering

/-! ## Names and occurrences -/

/-- The arenas whose indices a declaration tree binds. -/
inductive Kind where
  | decl
  | value
  | typeParam
  deriving DecidableEq, Repr

/-- An index into one of the arenas. -/
structure Name where
  kind : Kind
  index : Nat
  deriving DecidableEq, Repr

/-- A name met while walking a declaration tree: bound there, or referred to. -/
inductive Occurrence where
  | binds (n : Name)
  | refers (n : Name)
  deriving DecidableEq, Repr

/-- The name an occurrence binds. -/
def Occurrence.bound? : Occurrence → Option Name
  | binds n => some n
  | refers _ => none

/-- The names a walk binds, in order. -/
def binders (occ : List Occurrence) : List Name := occ.filterMap Occurrence.bound?

/-- The indices of one arena that a walk binds, in order. -/
def keysOf (k : Kind) (occ : List Occurrence) : List Nat :=
  (binders occ).filterMap fun n => if n.kind = k then some n.index else none

@[simp] theorem binders_nil : binders [] = [] := rfl

@[simp] theorem binders_append (l₁ l₂ : List Occurrence) :
    binders (l₁ ++ l₂) = binders l₁ ++ binders l₂ :=
  List.filterMap_append

@[simp] theorem binders_binds (n : Name) (l : List Occurrence) :
    binders (.binds n :: l) = n :: binders l := rfl

@[simp] theorem binders_refers (n : Name) (l : List Occurrence) :
    binders (.refers n :: l) = binders l := rfl

@[simp] theorem binders_flatMap {α : Type} (f : α → List Occurrence) (l : List α) :
    binders (l.flatMap f) = l.flatMap fun a => binders (f a) := by
  induction l with
  | nil => rfl
  | cons a l ih => simp [List.flatMap_cons, ih]

@[simp] theorem keysOf_append (k : Kind) (l₁ l₂ : List Occurrence) :
    keysOf k (l₁ ++ l₂) = keysOf k l₁ ++ keysOf k l₂ := by
  simp [keysOf]

theorem mem_keysOf {k : Kind} {i : Nat} {occ : List Occurrence} :
    i ∈ keysOf k occ ↔ ⟨k, i⟩ ∈ binders occ := by
  simp only [keysOf, List.mem_filterMap, Option.ite_none_right_eq_some, Option.some.injEq]
  constructor
  · rintro ⟨⟨k', i'⟩, hn, rfl, rfl⟩
    exact hn
  · intro h
    exact ⟨⟨k, i⟩, h, rfl, rfl⟩

/-- Distinct binders give distinct keys in each arena. -/
theorem nodup_keysOf {occ : List Occurrence} (h : (binders occ).Nodup) (k : Kind) :
    (keysOf k occ).Nodup :=
  h.filterMap fun a a' b ha ha' => by
    obtain ⟨k₁, i₁⟩ := a
    obtain ⟨k₂, i₂⟩ := a'
    simp only [Option.mem_def, Option.ite_none_right_eq_some, Option.some.injEq] at ha ha'
    obtain ⟨rfl, rfl⟩ := ha
    obtain ⟨rfl, rfl⟩ := ha'
    rfl

/-! ## References inside types -/

namespace Ty

mutual

/-- The type parameters a type refers to where substitution looks: through class arguments and
function parameters and results, not into the underlying type of an inline class. -/
def paramRefs : Ty → List TypeParamId
  | ⟨.param p, _, _⟩ => [p]
  | ⟨.cls _ args _, _, _⟩ => paramRefsAll args
  | ⟨.fn ps r, _, _⟩ => paramRefsAll ps ++ paramRefs r
  | ⟨.base _, _, _⟩ => []

/-- The type parameters each type of a list refers to. -/
def paramRefsAll : List Ty → List TypeParamId
  | [] => []
  | a :: rest => paramRefs a ++ paramRefsAll rest

end

theorem paramRefsAll_eq (ts : List Ty) : paramRefsAll ts = ts.flatMap paramRefs := by
  induction ts with
  | nil => rfl
  | cons a rest ih => simp [paramRefsAll, ih]

/-- The references a type makes, as occurrences. -/
def occurrences (t : Ty) : List Occurrence := t.paramRefs.map fun p => .refers ⟨.typeParam, p⟩

@[simp] theorem binders_occurrences (t : Ty) : binders t.occurrences = [] := by
  simp [occurrences, binders, List.filterMap_map, Occurrence.bound?]

/-- Substitution reads its map only at the parameters the type refers to. -/
theorem remap_congr {σ σ' : Nat → Option Nat} (t : Ty) (h : ∀ p ∈ t.paramRefs, σ p = σ' p) :
    t.remap σ = t.remap σ' := by
  -- by the size of the type: each argument, parameter and result is smaller
  induction hs : sizeOf t using Nat.strong_induction_on generalizing t with
  | _ n ih =>
  obtain ⟨s, nl, c⟩ := t
  have hall : ∀ ts : List Ty, (∀ a ∈ ts, sizeOf a < n) → (∀ p ∈ paramRefsAll ts, σ p = σ' p) →
      remapAll σ ts = remapAll σ' ts := by
    intro ts hts hrefs
    rw [remapAll_eq_map, remapAll_eq_map]
    refine List.map_congr_left fun a ha => ih _ (hts a ha) a (fun p hp => hrefs p ?_) rfl
    rw [paramRefsAll_eq]
    exact List.mem_flatMap.2 ⟨a, ha, hp⟩
  cases s with
  | base b => rfl
  | param p =>
    simp only [paramRefs, List.mem_singleton, forall_eq] at h
    simp only [remap, h]
  | cls name args u =>
    have hlt : ∀ a ∈ args, sizeOf a < n := fun a ha => by
      have := List.sizeOf_lt_of_mem ha
      subst hs
      simp
      omega
    simp only [remap, hall args hlt h]
  | fn ps r =>
    have hlt : ∀ a ∈ ps, sizeOf a < n := fun a ha => by
      have := List.sizeOf_lt_of_mem ha
      subst hs
      simp
      omega
    have hr : sizeOf r < n := by
      subst hs
      simp
      omega
    simp only [paramRefs, List.mem_append] at h
    simp only [remap, hall ps hlt fun p hp => h p (.inl hp),
      ih _ hr r (fun p hp => h p (.inr hp)) rfl]

end Ty

/-! ## The walk of an expression -/

/-- The declaration a call target refers to. -/
def CallTarget.occurrences : CallTarget → List Occurrence
  | .decl d => [.refers ⟨.decl, d⟩]
  | _ => []

@[simp] theorem binders_callTarget_occurrences (t : CallTarget) : binders t.occurrences = [] := by
  cases t <;> rfl

namespace Expr

/-- What a node meets before its children: the value it reads, writes or tests, the declaration
it returns from, and the walk of the declaration it holds. -/
def headOccurrences (nested : DeclId → List Occurrence) : Expr → List Occurrence
  | get v _ | set v _ _ | maskBit v _ _ => [.refers ⟨.value, v⟩]
  | ret r _ _ => [.refers ⟨.decl, r⟩]
  | fn d _ => nested d
  | _ => []

/-- What a node meets after its children: the value a `let` binds, and a call's target and type
arguments. -/
def tailOccurrences : Expr → List Occurrence
  | letVal v _ _ => [.binds ⟨.value, v⟩]
  | call tgt _ _ ta _ _ _ => tgt.occurrences ++ ta.flatMap Ty.occurrences
  | _ => []

/-- The occurrences met walking an expression: the node's type, what the node meets before its
children, the children in traversal order, and what it meets after them. A nested declaration's
walk is `nested`. -/
def occurrences (nested : DeclId → List Occurrence) (e : Expr) : List Occurrence :=
  e.ty.occurrences ++ e.headOccurrences nested ++
    (e.children.attach.flatMap fun ⟨c, _⟩ => c.occurrences nested) ++ e.tailOccurrences
  termination_by sizeOf e
  decreasing_by exact sizeOf_lt_of_mem_children (by assumption)

theorem occurrences_eq (nested : DeclId → List Occurrence) (e : Expr) :
    e.occurrences nested = e.ty.occurrences ++ e.headOccurrences nested ++
      e.children.flatMap (occurrences nested) ++ e.tailOccurrences := by
  rw [occurrences.eq_def]
  cases e <;> simp

end Expr

/-- A receiver's or parameter's walk: its value is bound, then its types are met. -/
def Param.occurrences (p : Param) : List Occurrence :=
  .binds ⟨.value, p.value⟩ :: p.ty.occurrences ++ p.vararg.toList.flatMap Ty.occurrences

namespace Module

/-- The occurrences met copying the declaration `x` with everything nested in it, to `fuel`
levels of nesting, in the copier's order: the type parameters, the receivers and parameters, the
return type and inline argument, then the declaration itself, then its defaults and body. -/
def declOccurrences (m : Module) : Nat → DeclId → List Occurrence
  | 0, _ => []
  | fuel + 1, x =>
    (m.decl x).typeParams.map (fun tp => .binds ⟨.typeParam, tp.id⟩) ++
      (m.decl x).explicitParams.flatMap Param.occurrences ++ (m.decl x).returns.occurrences ++
      (m.decl x).inlineArgument.toList.flatMap Ty.occurrences ++ [.binds ⟨.decl, x⟩] ++
      (m.decl x).owned.flatMap (Expr.occurrences (m.declOccurrences fuel))

/-- The occurrences of the tree of `d`, walked to as many levels as the arena has declarations. -/
def treeOccurrences (m : Module) (d : DeclId) : List Occurrence :=
  m.declOccurrences (m.decls.size + 1) d

end Module

/-! ### The declarations a walk binds -/

/-- A walk of an expression binds a declaration only inside the walk of a declaration the
expression holds. -/
theorem Expr.decl_bound_nested (nested : DeclId → List Occurrence) (e : Expr) {y : DeclId}
    (hy : ⟨.decl, y⟩ ∈ binders (e.occurrences nested)) :
    ∃ z ∈ e.nestedFns, ⟨.decl, y⟩ ∈ binders (nested z) := by
  rw [Expr.occurrences_eq] at hy
  simp only [binders_append, Ty.binders_occurrences, binders_flatMap, List.nil_append,
    List.mem_append, List.mem_flatMap] at hy
  rcases hy with (hy | ⟨c, hc, hy⟩) | hy
  · -- the node's own walk: only a `fn` node binds, through its declaration's walk
    cases e with
    | fn d t => exact ⟨d, Expr.mem_nestedFns.2 (.inl rfl), hy⟩
    | _ => simp only [Expr.headOccurrences, binders_refers, binders_nil, List.not_mem_nil] at hy
  · obtain ⟨z, hz, hyz⟩ := decl_bound_nested nested c hy
    exact ⟨z, Expr.nestedFns_subset_of_mem_children hc hz, hyz⟩
  · -- after the children a node binds only a value
    cases e <;> simp [Expr.tailOccurrences] at hy
termination_by sizeOf e
decreasing_by exact Expr.sizeOf_lt_of_mem_children hc

/-- The declarations the walk of `x`'s tree binds are `x` and the declarations nested in it. -/
theorem Module.decl_bound_nests (m : Module) (fuel : Nat) :
    ∀ x y, ⟨.decl, y⟩ ∈ binders (m.declOccurrences fuel x) → Relation.ReflTransGen m.Nests x y := by
  induction fuel with
  | zero => intro x y hy; cases hy
  | succ fuel ih =>
    intro x y hy
    simp only [Module.declOccurrences, binders_append, binders_flatMap, Ty.binders_occurrences,
      List.mem_append, List.mem_flatMap] at hy
    rcases hy with ((((hy | ⟨p, -, hy⟩) | hy) | ⟨_, -, hy⟩) | hy) | ⟨e, he, hy⟩
    · -- type parameters bind type parameters
      simp [binders, Occurrence.bound?, List.filterMap_map] at hy
    · -- receivers and parameters bind values
      simp [Param.occurrences] at hy
    · cases hy
    · cases hy
    · simp only [binders_binds, binders_nil, List.mem_singleton, Name.mk.injEq, true_and] at hy
      subst hy
      exact .refl
    · -- a declaration bound inside a default or the body is nested in `x`
      obtain ⟨z, hz, hyz⟩ := Expr.decl_bound_nested _ e hy
      exact .head (Module.nests_iff.2 ⟨e, he, hz⟩) (ih z y hyz)

/-! ## Scoping -/

/-- Whether every reference in `occ` to a name of `B` comes after a binding of it, the names
of `Γ` being bound before the walk starts. -/
def scopedFrom (B : List Name) : List Name → List Occurrence → Bool
  | _, [] => true
  | Γ, .binds n :: rest => scopedFrom B (n :: Γ) rest
  | Γ, .refers n :: rest => (!decide (n ∈ B) || decide (n ∈ Γ)) && scopedFrom B Γ rest

/-- A walk is scoped when every reference to a name it binds comes after that binding. -/
def Scoped (occ : List Occurrence) : Prop := scopedFrom (binders occ) [] occ = true

instance (occ : List Occurrence) : Decidable (Scoped occ) :=
  inferInstanceAs (Decidable (_ = true))

/-- A walk in two parts is scoped when the first is, and the second is after the first's
bindings. -/
theorem scopedFrom_append (B Γ : List Name) (l₁ l₂ : List Occurrence) :
    scopedFrom B Γ (l₁ ++ l₂) =
      (scopedFrom B Γ l₁ && scopedFrom B ((binders l₁).reverse ++ Γ) l₂) := by
  induction l₁ generalizing Γ with
  | nil => simp [scopedFrom]
  | cons o l₁ ih =>
    cases o with
    | binds n => simp [scopedFrom, ih]
    | refers n => simp [scopedFrom, ih, Bool.and_assoc]

/-- More names bound before keep a walk scoped. -/
theorem scopedFrom_mono {B Γ Γ' : List Name} (hΓ : ∀ n ∈ Γ, n ∈ Γ') :
    ∀ {l : List Occurrence}, scopedFrom B Γ l = true → scopedFrom B Γ' l = true := by
  intro l
  induction l generalizing Γ Γ' with
  | nil => intro _; rfl
  | cons o l ih =>
    cases o with
    | binds n =>
      exact ih fun x hx => by
        rcases List.mem_cons.1 hx with rfl | hx
        · exact List.mem_cons_self
        · exact List.mem_cons_of_mem _ (hΓ x hx)
    | refers n =>
      simp only [scopedFrom, Bool.and_eq_true, Bool.or_eq_true, Bool.not_eq_true',
        decide_eq_false_iff_not, decide_eq_true_eq]
      rintro ⟨hn, hl⟩
      exact ⟨hn.imp_right (hΓ n), ih hΓ hl⟩

/-- Only membership in the names of interest matters. -/
theorem scopedFrom_congr {B B' : List Name} (hB : ∀ n, n ∈ B ↔ n ∈ B') (Γ : List Name)
    (l : List Occurrence) : scopedFrom B Γ l = scopedFrom B' Γ l := by
  induction l generalizing Γ with
  | nil => rfl
  | cons o l ih =>
    cases o with
    | binds n => exact ih _
    | refers n => simp only [scopedFrom, hB n, ih]

/-- A walk of references only is scoped when each name of interest it refers to is bound
before it. -/
theorem scopedFrom_refers {α : Type} (f : α → Name) (B Γ : List Name) (l : List α) :
    scopedFrom B Γ (l.map fun a => .refers (f a)) = true ↔ ∀ a ∈ l, f a ∈ B → f a ∈ Γ := by
  induction l with
  | nil => simp [scopedFrom]
  | cons a l ih =>
    simp only [List.map_cons, scopedFrom, Bool.and_eq_true, ih, List.forall_mem_cons,
      Bool.or_eq_true, Bool.not_eq_true', decide_eq_false_iff_not, decide_eq_true_eq]
    exact and_congr_left' imp_iff_not_or.symm

/-! ## Renamings -/

/-- Renamings of declarations, values and type parameters, as lists of pairs with the latest
entry first. An index with no entry is kept. -/
structure Renaming where
  decls : List (DeclId × DeclId) := []
  values : List (ValueId × ValueId) := []
  typeParams : List (TypeParamId × TypeParamId) := []

namespace Renaming

variable (ρ : Renaming)

/-- The renaming of one arena. -/
def map : Kind → List (Nat × Nat)
  | .decl => ρ.decls
  | .value => ρ.values
  | .typeParam => ρ.typeParams

/-- An index of an arena renamed by its latest entry, or kept. -/
def apply (k : Kind) (i : Nat) : Nat := ((ρ.map k).lookup i).getD i

/-- A type with its type parameters renamed. -/
def ty (t : Ty) : Ty := t.remap fun p => (ρ.map .typeParam).lookup p

/-- A call target with its declaration renamed. -/
def target : CallTarget → CallTarget
  | .decl d => .decl (ρ.apply .decl d)
  | t => t

/-- A node's own references renamed: its type, the value it reads, writes, binds or tests, the
declaration it returns from, calls or holds, and a call's type arguments. Its children are left
as they are. -/
def node : Expr → Expr
  | .const c t => .const c (ρ.ty t)
  | .get v t => .get (ρ.apply .value v) (ρ.ty t)
  | .set v x t => .set (ρ.apply .value v) x (ρ.ty t)
  | .letVal v x t => .letVal (ρ.apply .value v) x (ρ.ty t)
  | .block xs t => .block xs (ρ.ty t)
  | .ite c a b t => .ite c a b (ρ.ty t)
  | .call tgt d x ta args cc t => .call (ρ.target tgt) d x (ta.map ρ.ty) args cc (ρ.ty t)
  | .ret r x t => .ret (ρ.apply .decl r) x (ρ.ty t)
  | .fn d t => .fn (ρ.apply .decl d) (ρ.ty t)
  | .composite o xs t => .composite o xs (ρ.ty t)
  | .vararg xs t => .vararg xs (ρ.ty t)
  | .inlineNew x t => .inlineNew x (ρ.ty t)
  | .maskBit v b t => .maskBit (ρ.apply .value v) b (ρ.ty t)

/-- An expression with every reference renamed, node by node. -/
def expr (e : Expr) : Expr :=
  ρ.node (Id.run (e.traverseChildren
    (fun c h => have := Expr.sizeOf_lt_of_mem_children h; pure (expr c)) pure))
termination_by sizeOf e

theorem expr_eq (e : Expr) : ρ.expr e = ρ.node (e.mapChildren ρ.expr) := by
  rw [expr]
  rfl

/-- A receiver with its value and types renamed; its default is kept as it is. -/
def receiver (p : Param) : Param :=
  { p with value := ρ.apply .value p.value, ty := ρ.ty p.ty, vararg := p.vararg.map ρ.ty }

/-- A parameter with its value, types and default renamed. -/
def param (p : Param) : Param := { ρ.receiver p with default := p.default.map ρ.expr }

/-- The copy of a declaration under a renaming: its type parameters, receivers, parameters,
return type, inline argument, defaults and body renamed, and detached; everything else, from its
name to its overrides and annotations, is kept. -/
def copy (x : Decl) : Decl :=
  { x with
    typeParams := x.typeParams.map fun tp => { tp with id := ρ.apply .typeParam tp.id }
    dispatch := x.dispatch.map ρ.receiver
    extension := x.extension.map ρ.receiver
    params := x.params.map ρ.param
    returns := ρ.ty x.returns
    inlineArgument := x.inlineArgument.map ρ.ty
    parent := .detached
    body := x.body.map ρ.expr }

/-! ### Extending a renaming -/

/-- `ρ` extends `σ`: each of its lists is `σ`'s with entries put in front. -/
def Extends (σ : Renaming) : Prop := ∀ k, ∃ pre, ρ.map k = pre ++ σ.map k

/-- No index of an arena has two entries. -/
def KeysNodup : Prop := ∀ k, ((ρ.map k).map Prod.fst).Nodup

/-- The names that have an entry. -/
def dom : List Name :=
  [Kind.decl, .value, .typeParam].flatMap fun k => (ρ.map k).map fun p => ⟨k, p.1⟩

variable {ρ}

theorem mem_dom {n : Name} : n ∈ ρ.dom ↔ n.index ∈ (ρ.map n.kind).map Prod.fst := by
  obtain ⟨k, i⟩ := n
  cases k <;> simp [dom]

theorem Extends.refl (ρ : Renaming) : ρ.Extends ρ := fun _ => ⟨[], rfl⟩

theorem Extends.trans {σ τ : Renaming} (h₁ : ρ.Extends σ) (h₂ : σ.Extends τ) : ρ.Extends τ :=
  fun k => by
    obtain ⟨p₁, hp₁⟩ := h₁ k
    obtain ⟨p₂, hp₂⟩ := h₂ k
    exact ⟨p₁ ++ p₂, by rw [hp₁, hp₂, List.append_assoc]⟩

theorem Extends.dom_sub {σ : Renaming} (h : ρ.Extends σ) {n : Name} (hn : n ∈ σ.dom) :
    n ∈ ρ.dom := by
  rw [mem_dom] at hn ⊢
  obtain ⟨pre, hpre⟩ := h n.kind
  rw [hpre, List.map_append]
  exact List.mem_append_right _ hn

/-- A key of a list with distinct keys is found at its own entry. -/
theorem lookup_of_mem {l : List (Nat × Nat)} (hl : (l.map Prod.fst).Nodup) {i j : Nat}
    (h : (i, j) ∈ l) : l.lookup i = some j := by
  induction l with
  | nil => cases h
  | cons p l ih =>
    obtain ⟨a, b⟩ := p
    simp only [List.map_cons, List.nodup_cons, List.mem_map] at hl
    rcases List.mem_cons.1 h with hp | hp
    · cases hp
      simp [List.lookup]
    · have hne : i ≠ a := by
        rintro rfl
        exact hl.1 ⟨(i, j), hp, rfl⟩
      simp only [List.lookup, beq_eq_false_iff_ne.2 hne]
      exact ih hl.2 hp

/-- Under a renaming with distinct keys that extends `σ`, an index with an entry in `σ` goes to
that entry. -/
theorem apply_of_mem {σ : Renaming} (hρ : ρ.Extends σ) (hnd : ρ.KeysNodup) {k : Kind} {i j : Nat}
    (h : (i, j) ∈ σ.map k) : ρ.apply k i = j := by
  obtain ⟨pre, hpre⟩ := hρ k
  simp [apply, lookup_of_mem (hnd k) (hpre ▸ List.mem_append_right _ h)]

theorem lookup_eq_none {l : List (Nat × Nat)} {i : Nat} (h : i ∉ l.map Prod.fst) :
    l.lookup i = none := by
  induction l with
  | nil => rfl
  | cons p l ih =>
    obtain ⟨a, b⟩ := p
    simp only [List.map_cons, List.mem_cons, not_or] at h
    simp only [List.lookup, beq_eq_false_iff_ne.2 h.1]
    exact ih h.2

/-- In a list with distinct keys, the entries put in front do not hide a key of the rest. -/
theorem lookup_append_of_mem {pre l : List (Nat × Nat)} (hl : ((pre ++ l).map Prod.fst).Nodup)
    {i : Nat} (hi : i ∈ l.map Prod.fst) : (pre ++ l).lookup i = l.lookup i := by
  obtain ⟨⟨a, j⟩, hj, rfl⟩ := List.mem_map.1 hi
  have hl' : (l.map Prod.fst).Nodup := by
    rw [List.map_append] at hl
    exact hl.sublist (List.sublist_append_right _ _)
  rw [lookup_of_mem hl (List.mem_append_right _ hj), lookup_of_mem hl' hj]

/-- Under a renaming with distinct keys that extends `σ`, an index is looked up as in `σ` when it
has an entry in `σ` or none at all. -/
theorem lookup_eq_of_extends {σ : Renaming} (hρ : ρ.Extends σ) (hnd : ρ.KeysNodup) {k : Kind}
    {i : Nat} (h : ⟨k, i⟩ ∈ ρ.dom → ⟨k, i⟩ ∈ σ.dom) : (ρ.map k).lookup i = (σ.map k).lookup i := by
  obtain ⟨pre, hpre⟩ := hρ k
  by_cases hi : (⟨k, i⟩ : Name) ∈ σ.dom
  · rw [mem_dom] at hi
    have hnd' := hnd k
    rw [hpre] at hnd' ⊢
    exact lookup_append_of_mem hnd' hi
  · have hρi : (⟨k, i⟩ : Name) ∉ ρ.dom := fun h' => hi (h h')
    rw [mem_dom] at hi hρi
    rw [lookup_eq_none hρi, lookup_eq_none hi]

theorem apply_eq_of_extends {σ : Renaming} (hρ : ρ.Extends σ) (hnd : ρ.KeysNodup) {k : Kind}
    {i : Nat} (h : ⟨k, i⟩ ∈ ρ.dom → ⟨k, i⟩ ∈ σ.dom) : ρ.apply k i = σ.apply k i := by
  unfold apply
  rw [lookup_eq_of_extends hρ hnd h]

/-- A type is renamed as under `σ` when each parameter it refers to has an entry in `σ` or none
at all. -/
theorem ty_eq_of_extends {σ : Renaming} (hρ : ρ.Extends σ) (hnd : ρ.KeysNodup) {t : Ty}
    (h : ∀ p ∈ t.paramRefs, ⟨.typeParam, p⟩ ∈ ρ.dom → ⟨.typeParam, p⟩ ∈ σ.dom) :
    ρ.ty t = σ.ty t :=
  Ty.remap_congr t fun p hp => lookup_eq_of_extends hρ hnd (h p hp)

end Renaming

end ComposeLowering
