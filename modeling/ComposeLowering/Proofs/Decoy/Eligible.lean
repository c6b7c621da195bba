import Mathlib.Data.Finset.Card
import ComposeLowering.Proofs.Nesting
import ComposeLowering.Lowering.Decoy.Rules

/-!
# Which declarations get a decoy

Whether a declaration gets a decoy (`remapped`) follows its override chain: a local declaration
is a local function, and so gets no decoy, unless it overrides a decoy or a declaration that
gets one. The two rules call each other with a fuel bound, and the split that makes decoys asks
the question of the module as it stands, halfway through the split.

In a module whose overrides stay in the arena and have no cycle, neither matters. Every
declaration has an override rank, the number of declarations it overrides however indirectly,
and once the fuel exceeds twice the rank the answer no longer changes (`shouldBeRemapped_fuel`).
Splitting some declarations that get a decoy keeps the answer for every other declaration
(`remapped_eq_of_splits`): an overridden declaration that was split is a decoy afterwards, and a
decoy counts as much as a declaration that gets one.
-/

namespace ComposeLowering

namespace Module

/-- Every declaration overrides declarations of the arena only. -/
def OverridesInArena (m : Module) : Prop := ∀ d o, m.Overrides d o → o < m.decls.size

/-- `OverridesInArena`, computed: a declaration past the arena overrides nothing. -/
def checkOverridesInArena (m : Module) : Bool :=
  (List.range m.decls.size).all fun d => (m.decl d).overrides.all (· < m.decls.size)

theorem overridesInArena_of_check {m : Module} (h : m.checkOverridesInArena = true) :
    m.OverridesInArena := by
  intro d o hdo
  by_cases hd : d < m.decls.size
  · simp only [checkOverridesInArena, List.all_eq_true, List.mem_range, decide_eq_true_eq] at h
    exact h d hd o hdo
  · rw [Overrides, decl_of_size_le (Nat.le_of_not_lt hd)] at hdo
    exact absurd hdo List.not_mem_nil

/-- The number of declarations of the arena a declaration overrides, however indirectly. -/
noncomputable def overrideRank (m : Module) (d : DeclId) : Nat :=
  reachCount m.Overrides m.decls.size d

theorem overrideRank_le (m : Module) (d : DeclId) : m.overrideRank d ≤ m.decls.size :=
  reachCount_le _ _ _

theorem overrideRank_lt {m : Module} (hacyc : ∀ d, ¬ Relation.TransGen m.Overrides d d)
    (hover : m.OverridesInArena) {d o : DeclId} (h : m.Overrides d o) :
    m.overrideRank o < m.overrideRank d :=
  reachCount_lt hover hacyc h

end Module

namespace Decoy

/-- Two tests that agree on a list's elements find the same there. -/
theorem any_congr_mem {α : Type} {l : List α} {p q : α → Bool} (h : ∀ a ∈ l, p a = q a) :
    l.any p = l.any q := by
  induction l with
  | nil => rfl
  | cons a l ih =>
    rw [List.any_cons, List.any_cons, h a List.mem_cons_self,
      ih fun b hb => h b (List.mem_cons_of_mem a hb)]

theorem isLocalFunction_succ (m : Module) (fuel : Nat) (d : DeclId) :
    isLocalFunction m (fuel + 1) d = ((m.decl d).isLambda || ((m.decl d).isLocal &&
      !(m.decl d).overrides.any fun o => (m.decl o).isDecoy || shouldBeRemapped m fuel o)) := by
  rw [isLocalFunction]

theorem shouldBeRemapped_succ (m : Module) (fuel : Nat) (d : DeclId) :
    shouldBeRemapped m (fuel + 1) d = (!isLocalFunction m fuel d &&
      ((m.decl d).isMarkedComposable ||
        ((m.decl d).params ++ (m.decl d).extension.toList).any fun p => p.ty.hasComposable)) := by
  rw [shouldBeRemapped]

/-! ## Splitting keeps the answer -/

section Stable

variable {m m' : Module} {S : DeclId → Prop}

/-- What a split of the declarations `S` of `m` leaves of `m` in `m'`: the other declarations
of the arena as they were, and each declaration split, which got a decoy however much fuel
past its rank is given, a decoy. -/
structure SplitsOf (m m' : Module) (S : DeclId → Prop) : Prop where
  keep : ∀ y < m.decls.size, ¬ S y → m'.decl y = m.decl y
  decoy : ∀ y, S y → (m'.decl y).isDecoy = true
  remapped : ∀ y, S y → ∀ fuel, 2 * m.overrideRank y + 2 ≤ fuel → shouldBeRemapped m fuel y = true

variable (hacyc : ∀ d, ¬ Relation.TransGen m.Overrides d d) (hover : m.OverridesInArena)
include hacyc hover

/-- A declaration of the arena that was not split is a local function, and gets a decoy, in
`m'` as in `m`, given fuel past twice its rank on both sides. The induction is on the rank: an
override has a lower one, and counts alike on both sides, as a decoy in `m'` and a declaration
that gets one in `m` when it was split, by the induction otherwise. -/
theorem stable_of_splitsOf (hS : SplitsOf m m' S) (n : Nat) :
    ∀ d, m.overrideRank d = n → d < m.decls.size → ¬ S d →
      (∀ f g, 2 * n + 1 ≤ f → 2 * n + 1 ≤ g → isLocalFunction m' f d = isLocalFunction m g d) ∧
      ∀ f g, 2 * n + 2 ≤ f → 2 * n + 2 ≤ g → shouldBeRemapped m' f d = shouldBeRemapped m g d := by
  induction n using Nat.strong_induction_on with
  | _ n ih =>
  intro d hn hd hSd
  have hx : m'.decl d = m.decl d := hS.keep d hd hSd
  have hoverride : ∀ f g, 2 * n ≤ f → 2 * n ≤ g → ∀ o ∈ (m.decl d).overrides,
      ((m'.decl o).isDecoy || shouldBeRemapped m' f o) =
        ((m.decl o).isDecoy || shouldBeRemapped m g o) := by
    intro f g hf hg o ho
    have hlt : m.overrideRank o < n := hn ▸ Module.overrideRank_lt hacyc hover ho
    by_cases hSo : S o
    · rw [hS.decoy o hSo, hS.remapped o hSo g (by omega), Bool.or_true, Bool.true_or]
    · rw [hS.keep o (hover d o ho) hSo,
        (ih _ hlt o rfl (hover d o ho) hSo).2 f g (by omega) (by omega)]
  have hlocal : ∀ f g, 2 * n + 1 ≤ f → 2 * n + 1 ≤ g →
      isLocalFunction m' f d = isLocalFunction m g d := by
    intro f g hf hg
    obtain ⟨f, rfl⟩ : ∃ k, f = k + 1 := ⟨f - 1, by omega⟩
    obtain ⟨g, rfl⟩ : ∃ k, g = k + 1 := ⟨g - 1, by omega⟩
    rw [isLocalFunction_succ, isLocalFunction_succ, hx,
      any_congr_mem fun o ho => hoverride f g (by omega) (by omega) o ho]
  refine ⟨hlocal, fun f g hf hg => ?_⟩
  obtain ⟨f, rfl⟩ : ∃ k, f = k + 1 := ⟨f - 1, by omega⟩
  obtain ⟨g, rfl⟩ : ∃ k, g = k + 1 := ⟨g - 1, by omega⟩
  rw [shouldBeRemapped_succ, shouldBeRemapped_succ, hx, hlocal f g (by omega) (by omega)]

/-- Past twice its rank, the fuel does not change whether a declaration of the arena gets a
decoy. -/
theorem shouldBeRemapped_fuel {d : DeclId} (hd : d < m.decls.size) {f g : Nat}
    (hf : 2 * m.overrideRank d + 2 ≤ f) (hg : 2 * m.overrideRank d + 2 ≤ g) :
    shouldBeRemapped m f d = shouldBeRemapped m g d :=
  (stable_of_splitsOf hacyc hover (S := fun _ => False) ⟨fun _ _ _ => rfl, fun _ h => h.elim,
    fun _ h => h.elim⟩ _ d rfl hd not_false).2 f g hf hg

/-- Splitting declarations of the arena that get a decoy into decoys keeps, for every other
declaration of the arena, whether it gets one. -/
theorem remapped_eq_of_splits (hsize : m.decls.size ≤ m'.decls.size)
    (hkeep : ∀ y < m.decls.size, ¬ S y → m'.decl y = m.decl y)
    (hsplit : ∀ y, S y → y < m.decls.size ∧ (m'.decl y).isDecoy = true ∧ remapped m y = true)
    {d : DeclId} (hd : d < m.decls.size) (hSd : ¬ S d) : remapped m' d = remapped m d := by
  have hrank : ∀ y, m.overrideRank y ≤ m.decls.size := m.overrideRank_le
  have hS : SplitsOf m m' S := by
    refine ⟨hkeep, fun y hy => (hsplit y hy).2.1, fun y hy fuel hfuel => ?_⟩
    obtain ⟨hy, -, hrem⟩ := hsplit y hy
    have := hrank y
    rw [shouldBeRemapped_fuel hacyc hover hy hfuel (g := 2 * m.decls.size + 2) (by omega)]
    exact hrem
  have := hrank d
  exact (stable_of_splitsOf hacyc hover hS _ d rfl hd hSd).2 _ _ (by omega) (by omega)

end Stable

end Decoy

end ComposeLowering
