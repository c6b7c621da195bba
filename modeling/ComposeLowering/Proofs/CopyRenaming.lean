import ComposeLowering.Proofs.CopyWalk

/-!
# A deep copy is a renaming

`Module.deepCopy m d` copies the tree of `d`: `d` and, transitively, the lambdas and local
functions nested in it. The copier records a fresh declaration, value or type parameter for each
name the tree binds when its walk meets the binding, and renames each reference by what is
recorded when the reference is met (see `CopyWalk`).

So the copy is the renaming of the tree when the tree is *scoped*: in the walk's order every
reference to a name the tree binds comes after the binding, and no name is bound twice. Then the
copier's final renamings send the names the tree binds, and only those, to distinct indices
allocated past the original arenas, and every declaration of the tree is copied to its
`Renaming.copy` under them, a reference that leaves the tree being kept
(`Module.deepCopy_copiesByRenaming`).

## A reference before its binding

The order of the walk is the copier's: a declaration is bound before its defaults and body, type
parameters before the types of the parameters, and a `let` value only after its initial value.
A value read before the `let` that binds it is met while it has no entry yet, so the read keeps
the original value while the `let` binds a fresh one (`letModule_read_kept`): without scoping
the copy is not the renaming of the tree.
-/

namespace ComposeLowering

namespace Module

/-- The values a tree binds are named by `hvalues`; the declarations it binds are nested in its
root, so they lie in the arena. -/
theorem named_treeOccurrences {m : Module} (hnest : m.AcyclicNesting) {d : DeclId}
    (hd : d < m.decls.size)
    (hvalues : ∀ v ∈ keysOf .value (m.treeOccurrences d), v < m.values.size) :
    CopyState.Named m (m.treeOccurrences d) := by
  refine ⟨hvalues, fun x hx => ?_⟩
  -- along the nesting from the root, every step stays in the arena
  induction m.decl_bound_nests _ d x (mem_keysOf.1 hx) with
  | refl => exact hd
  | tail _ hyx => exact hnest.nested_lt _ _ hyx

/-- `m.deepCopy d` succeeds with the module `m'` and copies the tree of `d` under the renamings
`ρ`. -/
structure CopiesByRenaming (m : Module) (d : DeclId) (m' : Module) (ρ : Renaming) : Prop where
  /-- The copy succeeds, and the copy of `d` is where `ρ` sends `d`. -/
  deepCopy_eq : m.deepCopy d = .ok (m', ρ.apply .decl d)
  /-- `ρ` has an entry for exactly each name the tree binds, the last bound first. -/
  keys : ∀ k, (ρ.map k).map Prod.fst = (keysOf k (m.treeOccurrences d)).reverse
  /-- Distinct names go to distinct indices. -/
  images_nodup : ∀ k, ((ρ.map k).map Prod.snd).Nodup
  /-- Each name goes to an index the copy allocated. -/
  images_fresh : ∀ k, ∀ p ∈ ρ.map k, m.arenaSize k ≤ p.2 ∧ p.2 < m'.arenaSize k
  /-- Each declaration of the tree is copied to its renaming. -/
  copied : ∀ x ∈ keysOf .decl (m.treeOccurrences d), m'.decl (ρ.apply .decl x) = ρ.copy (m.decl x)
  /-- The original declarations are unchanged. -/
  original : ∀ x < m.decls.size, m'.decl x = m.decl x

/-- **A deep copy is a renaming.** In a module whose nesting has no cycles, the copy of a
declaration whose tree names its values and is scoped, with no name bound twice, succeeds and is
the renaming of the tree under the copier's final renamings: they send exactly the names the
tree binds to distinct fresh indices, every declaration of the tree is copied to its
`Renaming.copy` (references leaving the tree are kept, and the copy is detached), and the
original declarations are unchanged. -/
theorem deepCopy_copiesByRenaming {m : Module} (hnest : m.AcyclicNesting) {d : DeclId}
    (hd : d < m.decls.size)
    (hvalues : ∀ v ∈ keysOf .value (m.treeOccurrences d), v < m.values.size)
    (hscoped : Scoped (m.treeOccurrences d)) (hnodup : (binders (m.treeOccurrences d)).Nodup) :
    ∃ m' ρ, m.CopiesByRenaming d m' ρ := by
  obtain ⟨rank, hrank⟩ := hnest.exists_nestRanking
  have hwalk := CopyState.walks_copyDecl (m := m) (m.decls.size + 1) d (fun _ => True)
    { module := m } (CopyState.good_start m) (named_treeOccurrences hnest hd hvalues)
  -- the copy succeeds: its only fault would be the recursion limit, which the ranking rules out
  cases hrun : CopyState.copyDecl (m.decls.size + 1) d { module := m } with
  | error e =>
    obtain rfl := hwalk.1 e hrun
    refine absurd ?_ (hrank.deepCopy_ne_recursionLimit d)
    unfold deepCopy
    rw [StateT.run, hrun]
    rfl
  | ok r =>
    obtain ⟨new, s'⟩ := r
    obtain ⟨hs', -, hrec, hres⟩ := hwalk.2 new s' hrun
    -- the copier's own renamings have an entry for exactly each name the tree binds
    have hkeys : ∀ k, (s'.recorded.map k).map Prod.fst =
        (keysOf k (m.treeOccurrences d)).reverse := fun k => by
      obtain ⟨pre, hpre, hk, -⟩ := hrec k
      have hstart : ({ module := m } : CopyState).recorded.map k = [] := by cases k <;> rfl
      rw [hpre, hstart, List.append_nil, hk]
      rfl
    have hnd : s'.recorded.KeysNodup := fun k => by
      rw [hkeys k]
      exact List.nodup_reverse.2 (nodup_keysOf hnodup k)
    have hdom : ∀ n, n ∈ s'.recorded.dom ↔ n ∈ binders (m.treeOccurrences d) := fun n => by
      rw [Renaming.mem_dom, hkeys, List.mem_reverse, mem_keysOf]
    -- so they admit the whole walk, which is scoped
    have hadm : CopyState.Admits s'.recorded { module := m } s' (m.treeOccurrences d) :=
      ⟨.refl _, hnd, by rw [scopedFrom_congr hdom]; exact hscoped⟩
    obtain ⟨rfl, hcopied⟩ := hres s'.recorded trivial hadm
    refine ⟨s'.module, s'.recorded, ?_, hkeys, hs'.nodup, hs'.fresh, hcopied,
      fun x hx => hs'.decl_eq x hx⟩
    unfold deepCopy
    rw [StateT.run, hrun]
    rfl

end Module

/-- The module of the copier's own test: `Wrap<T>(x : T) : T` holds a lambda that returns `x`
from `Wrap`, then returns `x` itself. -/
def wrapModule : Module :=
  { name := "app",
    decls := #[
      { name := "Wrap", kind := .function, parent := .container 0,
        typeParams := [{ id := 0, name := "T" }],
        params := [{ value := 0, name := "x", ty := Ty.param 0 }], returns := Ty.param 0,
        body := some (.block [.fn 1 Ty.any, .ret 0 (.get 0 (Ty.param 0)) Ty.nothing] Ty.nothing) },
      { name := "<lambda>", kind := .function, origin := .lambda, visibility := .local,
        parent := .decl 0, body := some (.ret 0 (.get 0 (Ty.param 0)) Ty.nothing) }],
    containers := #[{ kind := .file "", members := [0] }],
    files := [0],
    values := #["x"],
    typeParams := #["T"] }

/-- `Wrap`'s tree is scoped, so its copy is its renaming: the lambda is copied, its return
targets the copy of `Wrap`, and the reads of `x` read the copy's parameter. -/
theorem wrapModule_copiesByRenaming :
    wrapModule.AcyclicNesting ∧ Scoped (wrapModule.treeOccurrences 0) ∧
      (binders (wrapModule.treeOccurrences 0)).Nodup ∧
      ∃ m' ρ, wrapModule.CopiesByRenaming 0 m' ρ :=
  have h : wrapModule.AcyclicNesting := Module.acyclicNesting_of_check (by decide +kernel)
  ⟨h, by decide +kernel, by decide +kernel,
    Module.deepCopy_copiesByRenaming h (by decide) (by decide +kernel) (by decide +kernel)
      (by decide +kernel)⟩

/-- `F` reads value `0`, then binds it by a `let`. -/
def letModule : Module :=
  { name := "app",
    decls := #[
      { name := "F", kind := .function, parent := .container 0,
        body := some (.block [.get 0 Ty.int, .letVal 0 (.const (.int 1) Ty.int) Ty.unit]
          Ty.unit) }],
    containers := #[{ kind := .file "p", members := [0] }],
    files := [0],
    values := #["v"] }

/-- A read met before its binding is not renamed. `F`'s walk reads value `0` and then binds it;
the walk of its copy binds the fresh value `1` but still reads value `0`, the original's, where
the renaming of `F` would read `1`. `F`'s tree is not scoped. -/
theorem letModule_read_kept :
    ¬ Scoped (letModule.treeOccurrences 0) ∧
      (letModule.decl 0).owned.flatMap (Expr.occurrences fun _ => []) =
        [.refers ⟨.value, 0⟩, .binds ⟨.value, 0⟩] ∧
      ∃ m' new, letModule.deepCopy 0 = .ok (m', new) ∧
        (m'.decl new).owned.flatMap (Expr.occurrences fun _ => []) =
          [.refers ⟨.value, 0⟩, .binds ⟨.value, 1⟩] := by
  refine ⟨by decide +kernel, by decide +kernel, ?_⟩
  have hrun : (letModule.deepCopy 0).toOption.map (fun r =>
      (r.1.decl r.2).owned.flatMap (Expr.occurrences fun _ => [])) =
        some [.refers ⟨.value, 0⟩, .binds ⟨.value, 1⟩] := by
    decide +kernel
  cases hr : letModule.deepCopy 0 with
  | error e =>
    rw [hr] at hrun
    cases hrun
  | ok r =>
    rw [hr] at hrun
    simp only [Except.toOption, Option.map_some, Option.some.injEq] at hrun
    exact ⟨r.1, r.2, rfl, hrun⟩

end ComposeLowering
