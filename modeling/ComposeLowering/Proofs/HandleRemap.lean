import Mathlib
import ComposeLowering.Proofs.HandleReads
import ComposeLowering.Proofs.Renaming

/-!
# Substituting type parameters in interned types

`TypeInterner.remap σ h` substitutes type parameters by `σ` in the type of the handle `h`,
re-interning every level it rebuilds. This module shows that it is the structural substitution
`Ty.remap` of the type the handle stands for: parameters with a substitute are replaced, class
arguments and function parameters and results are substituted, the underlying type of an
inline class is kept, and so are both flags at every level (`sound_remap_typeOf`).

The interner keeps a type at one handle (`Consistent.typeOf_injective`), so what holds of the
substituted trees holds of the handles (`Reachable.remap_substitutes`):

* the handle comes back unchanged exactly when no parameter the type refers to is moved
  (`Ty.remap_eq_self_iff`);
* a composable part is found after substituting exactly when before (`Ty.hasComposable_remap`);
* substituting by `σ₁` and then by `σ₂` ends at the handle that substituting once by the
  composed map ends at (`Ty.remap_remap`).
-/

namespace ComposeLowering

namespace Ty

/-! ## Substitution on trees -/

/-- Induction over types, in which the class arguments, the underlying type of an inline class,
and the function parameters and result of a type are its smaller parts. -/
@[elab_as_elim]
theorem induction_parts {motive : Ty → Prop}
    (base : ∀ b n c, motive ⟨.base b, n, c⟩)
    (param : ∀ p n c, motive ⟨.param p, n, c⟩)
    (cls : ∀ name args u n c, (∀ a ∈ args, motive a) → (∀ a ∈ u, motive a) →
      motive ⟨.cls name args u, n, c⟩)
    (fn : ∀ ps r n c, (∀ a ∈ ps, motive a) → motive r → motive ⟨.fn ps r, n, c⟩) (T : Ty) :
    motive T := by
  -- by the size of the type: each part is smaller
  induction hs : sizeOf T using Nat.strong_induction_on generalizing T with
  | _ k ih =>
  obtain ⟨s, n, c⟩ := T
  cases s with
  | base b => exact base b n c
  | param p => exact param p n c
  | cls name args u =>
    refine cls name args u n c (fun a ha => ih _ ?_ a rfl) (fun a ha => ih _ ?_ a rfl)
    · have := List.sizeOf_lt_of_mem ha
      subst hs
      simp
      omega
    · subst hs
      obtain rfl := Option.mem_def.1 ha
      simp
      omega
  | fn ps r =>
    refine fn ps r n c (fun a ha => ih _ ?_ a rfl) (ih _ ?_ r rfl)
    · have := List.sizeOf_lt_of_mem ha
      subst hs
      simp
      omega
    · subst hs
      simp
      omega

/-- A map that leaves a list unchanged leaves each of its elements unchanged. -/
theorem map_eq_self {α : Type} {f : α → α} : ∀ {l : List α}, l.map f = l → ∀ a ∈ l, f a = a
  | [], _, _, ha => nomatch ha
  | b :: l, h, a, ha => by
    simp only [List.map_cons, List.cons.injEq] at h
    rcases List.mem_cons.1 ha with rfl | ha
    · exact h.1
    · exact map_eq_self h.2 a ha

/-- The substitution with no substitutes changes nothing. -/
theorem remap_none (T : Ty) : T.remap (fun _ => none) = T := by
  induction T using induction_parts with
  | base b n c => rfl
  | param p n c => rfl
  | cls name args u n c ih =>
    rw [remap, remapAll_eq_map, List.map_congr_left ih, List.map_id']
  | fn ps r n c ih ihr =>
    rw [remap, remapAll_eq_map, List.map_congr_left ih, List.map_id', ihr]

/-- Substitution reads its map only through where it sends the parameters the type refers to,
a parameter with no substitute going to itself. -/
theorem remap_congr_getD {σ σ' : Nat → Option Nat} (T : Ty)
    (h : ∀ p ∈ T.paramRefs, (σ p).getD p = (σ' p).getD p) : T.remap σ = T.remap σ' := by
  induction T using induction_parts with
  | base b n c => rfl
  | param p n c => simp [remap, h p (by simp [paramRefs])]
  | cls name args u n c ih =>
    simp only [paramRefs, paramRefsAll_eq, List.mem_flatMap] at h
    simp only [remap, remapAll_eq_map]
    rw [List.map_congr_left fun a ha => ih a ha fun p hp => h p ⟨a, ha, hp⟩]
  | fn ps r n c ih ihr =>
    simp only [paramRefs, paramRefsAll_eq, List.mem_append, List.mem_flatMap] at h
    simp only [remap, remapAll_eq_map]
    rw [List.map_congr_left fun a ha => ih a ha fun p hp => h p (.inl ⟨a, ha, hp⟩),
      ihr fun p hp => h p (.inr hp)]

/-- A substitution leaves a type unchanged exactly when it sends every parameter the type
refers to, that has a substitute, to itself. -/
theorem remap_eq_self_iff {σ : Nat → Option Nat} {T : Ty} :
    T.remap σ = T ↔ ∀ p ∈ T.paramRefs, ∀ q, σ p = some q → q = p := by
  constructor
  · intro hT
    induction T using induction_parts with
    | base b n c => simp [paramRefs]
    | param p n c =>
      simp only [remap, Ty.mk.injEq, Shape.param.injEq] at hT
      simp only [paramRefs, List.mem_singleton, forall_eq]
      intro q hq
      simpa [hq] using hT.1
    | cls name args u n c ih =>
      simp only [remap, remapAll_eq_map, Ty.mk.injEq, Shape.cls.injEq] at hT
      simp only [paramRefs, paramRefsAll_eq, List.mem_flatMap]
      rintro p ⟨a, ha, hp⟩
      exact ih a ha (map_eq_self hT.1.2.1 a ha) p hp
    | fn ps r n c ih ihr =>
      simp only [remap, remapAll_eq_map, Ty.mk.injEq, Shape.fn.injEq] at hT
      simp only [paramRefs, paramRefsAll_eq, List.mem_append, List.mem_flatMap]
      rintro p (⟨a, ha, hp⟩ | hp)
      · exact ih a ha (map_eq_self hT.1.1 a ha) p hp
      · exact ihr hT.1.2 p hp
  · intro h
    -- it substitutes as the substitution with no substitutes does
    have hnone : T.remap σ = T.remap fun _ => none := remap_congr_getD T fun p hp => by
      cases hσ : σ p with
      | none => rfl
      | some q => exact h p hp q hσ
    rw [hnone, remap_none]

/-- Substituting keeps every flag and every form, so a composable part is found after it exactly
when before. -/
theorem hasComposable_remap (σ : Nat → Option Nat) (T : Ty) :
    (T.remap σ).hasComposable = T.hasComposable := by
  induction T using induction_parts with
  | base b n c => rfl
  | param p n c => rfl
  | cls name args u n c ih =>
    have hargs : args.any (hasComposable ∘ remap σ) = args.any hasComposable :=
      Decoy.any_congr_mem fun a ha => ih a ha
    simp only [remap, hasComposable, anyHasComposable_eq_any, remapAll_eq_map, List.any_map, hargs]
  | fn ps r n c ih ihr =>
    have hps : ps.any (hasComposable ∘ remap σ) = ps.any hasComposable :=
      Decoy.any_congr_mem fun a ha => ih a ha
    simp only [remap, hasComposable, anyHasComposable_eq_any, remapAll_eq_map, List.any_map, hps,
      ihr]

/-- Where `σ₁` and then `σ₂` send a parameter, a parameter with no substitute going to itself. -/
def composeSubst (σ₁ σ₂ : Nat → Option Nat) (p : Nat) : Option Nat :=
  some ((σ₂ ((σ₁ p).getD p)).getD ((σ₁ p).getD p))

/-- Substituting by `σ₁` and then by `σ₂` substitutes by the composed map. -/
theorem remap_remap (σ₁ σ₂ : Nat → Option Nat) (T : Ty) :
    (T.remap σ₁).remap σ₂ = T.remap (composeSubst σ₁ σ₂) := by
  induction T using induction_parts with
  | base b n c => rfl
  | param p n c => rfl
  | cls name args u n c ih =>
    have hargs : args.map (remap σ₂ ∘ remap σ₁) = args.map (remap (composeSubst σ₁ σ₂)) :=
      List.map_congr_left fun a ha => ih a ha
    simp only [remap, remapAll_eq_map, List.map_map, hargs]
  | fn ps r n c ih ihr =>
    have hps : ps.map (remap σ₂ ∘ remap σ₁) = ps.map (remap (composeSubst σ₁ σ₂)) :=
      List.map_congr_left fun a ha => ih a ha
    simp only [remap, remapAll_eq_map, List.map_map, hps, ihr]

end Ty

namespace TypeInterner

open StepSemantics

/-! ## Substitution on handles -/

/-- That handles stand for types survives growth. -/
theorem forall₂_typeOf_of_extending {t t' : TypeInterner} (hg : extending.rel t t') {F : Ty → Ty}
    {hs : List Nat} {Ts : List Ty} (h : List.Forall₂ (fun h U => t.typeOf h = .ok (F U)) hs Ts) :
    List.Forall₂ (fun h U => t'.typeOf h = .ok (F U)) hs Ts :=
  h.imp fun _ _ hp => typeOf_of_extending hg hp

/-- Interning a stored type whose parts stand for types ends at a handle that stands for the
type rebuilt from them. -/
theorem sound_intern_typeOf {d : TyData} {s : Shape Ty} :
    Sound (fun t => Shape.Rel (fun p U => t.typeOf p = .ok U) d.shape s) (intern d)
      fun h t => t.typeOf h = .ok ⟨s, d.nullable, d.composable⟩ :=
  Safe.of_run fun t hI hs => by
    -- the parts are stored, since they stand for types
    have hd : ∀ p ∈ d.parts, p < t.types.size := fun p hp => by
      obtain ⟨U, hU⟩ := hs.exists_of_mem_parts (by rw [← TyData.parts_eq]; exact hp)
      exact lt_size_of_typeOf hU
    obtain ⟨hI', hg, hh, hdata⟩ := hI.store hd
    refine ⟨(t.store d).1, (t.store d).2, rfl, hI', hg, ?_⟩
    rw [hI'.typeOf_eq_ok_iff hh, hdata, typeStep_eq_ok_iff]
    exact ⟨s, hs.imp fun _ _ hp => typeOf_of_extending hg hp, rfl⟩

/-- Substituting in each of a list of handles that stand for types, by a walk that substitutes
correctly in each of them, ends at handles that stand for the substituted types. -/
theorem sound_mapM_remapAt {σ : List (Nat × Nat)} {fuel : Nat}
    (hrec : ∀ h T, h < fuel → Sound (fun t => t.typeOf h = .ok T) (remapAt σ fuel h)
      fun h' t => t.typeOf h' = .ok (T.remap (σ.lookup ·))) :
    ∀ (hs : List Nat) (Ts : List Ty), (∀ h ∈ hs, h < fuel) →
      Sound (fun t => List.Forall₂ (fun h U => t.typeOf h = .ok U) hs Ts) (hs.mapM (remapAt σ fuel))
        fun hs' t => List.Forall₂ (fun h U => t.typeOf h = .ok (U.remap (σ.lookup ·))) hs' Ts := by
  intro hs
  induction hs with
  | nil =>
    intro Ts _
    exact Safe.pure _ fun _ h => by cases h; exact .nil
  | cons h hs ih =>
    intro Ts hlt
    cases Ts with
    | nil => exact Safe.of_impossible fun _ h => by cases h
    | cons U Us =>
      rw [List.mapM_cons]
      -- the rest keeps its types while the head is substituted
      refine Safe.bind (((hrec h U (hlt h List.mem_cons_self)).frame
        (R := fun t => List.Forall₂ (fun h U => t.typeOf h = .ok U) hs Us)
        fun _ _ hg hR => forall₂_typeOf_of_extending (F := id) hg hR).mono
          (fun _ hp => by cases hp with | cons hU hrest => exact ⟨hU, hrest⟩)
          fun _ _ hq => hq) fun h' => ?_
      -- and the head keeps its result while the rest is substituted
      refine Safe.bind (((ih Us fun a ha => hlt a (List.mem_cons_of_mem _ ha)).frame
        (R := fun t => t.typeOf h' = .ok (U.remap (σ.lookup ·)))
        fun _ _ hg hR => typeOf_of_extending hg hR).mono (fun _ hp => ⟨hp.2, hp.1⟩)
          fun _ _ hq => hq) fun hs' => ?_
      exact Safe.pure _ fun _ hq => .cons hq.2 hq.1

/-- The same from a start `t₀` at which the handles stand for their types: run in any table
that extends `t₀`, the walk ends in a table that still extends it. -/
theorem sound_mapM_remapAt_from {σ : List (Nat × Nat)} {fuel : Nat}
    (hrec : ∀ h T, h < fuel → Sound (fun t => t.typeOf h = .ok T) (remapAt σ fuel h)
      fun h' t => t.typeOf h' = .ok (T.remap (σ.lookup ·)))
    {t₀ : TypeInterner} {hs : List Nat} {Ts : List Ty} (hlt : ∀ h ∈ hs, h < fuel)
    (hstart : List.Forall₂ (fun h U => t₀.typeOf h = .ok U) hs Ts) :
    Sound (extending.rel t₀) (hs.mapM (remapAt σ fuel)) fun hs' t =>
      List.Forall₂ (fun h U => t.typeOf h = .ok (U.remap (σ.lookup ·))) hs' Ts ∧
        extending.rel t₀ t :=
  ((sound_mapM_remapAt hrec hs Ts hlt).frame (R := extending.rel t₀)
    fun _ _ hg h₀ => extending.trans h₀ hg).mono
      (fun _ ht => ⟨forall₂_typeOf_of_extending (F := id) ht hstart, ht⟩) fun _ _ hq => hq

/-- **Substitution on handles is substitution on types.** Substituting in a handle below the
fuel that stands for `T` ends at a handle that stands for `T.remap σ.lookup`: a parameter with a
substitute is replaced, class arguments and function parameters and results are substituted in
turn and the type is rebuilt with its flags and the underlying type of an inline class, and any
other type is kept. -/
theorem sound_remapAt_typeOf (σ : List (Nat × Nat)) {fuel : Nat} :
    ∀ h T, h < fuel → Sound (fun t => t.typeOf h = .ok T) (remapAt σ fuel h)
      fun h' t => t.typeOf h' = .ok (T.remap (σ.lookup ·)) := by
  induction fuel with
  | zero => intro h T hlt; omega
  | succ fuel ih =>
  intro h T hlt
  rw [remapAt]
  refine Safe.bind (Safe.of_inv (sound_data h fun t => t.typeOf h = .ok T)
    fun t _ hT => ⟨lt_size_of_typeOf hT, hT⟩) fun d => ?_
  -- at the start the type of `h` is its stored type over the types of its parts, which are
  -- stored before it; every later table extends the start
  refine Safe.of_start fun t₀ hI hstart => ?_
  obtain ⟨hh, hd, hT⟩ := hstart
  obtain ⟨s, hs, rfl⟩ := typeStep_eq_ok_iff.1 (hd ▸ (hI.typeOf_eq_ok_iff hh).1 hT)
  have hparts : ∀ p ∈ d.shape.parts, p < fuel := fun p hp => by
    have := hI.parts_lt h hh p (by rw [TyData.parts_eq, hd]; exact hp)
    omega
  refine Safe.of_inv ?_ fun t _ (ht : t = t₀) => (ht ▸ extending.refl t₀ : extending.rel t₀ t)
  split
  · -- a parameter: replaced when it has a substitute
    rename_i p hp
    rw [hp] at hs
    cases hs
    split
    · rename_i q hq
      refine (sound_intern_typeOf (d := { d with shape := .param q }) (s := .param q)).mono
        (fun _ _ => Shape.Rel.param q) fun h' t hT' => ?_
      simpa [Ty.remap, hq] using hT'
    · rename_i hq
      exact Safe.pure _ fun t ht => by simpa [Ty.remap, hq] using typeOf_of_extending ht hT
  · -- a class: its arguments substituted in turn, its underlying type kept
    rename_i name args u hc
    rw [hc] at hs
    cases hs with
    | @cls _ _ Targs _ Tu hargs hu =>
    have hlt : ∀ a ∈ args, a < fuel := fun a ha => hparts a (by simp [hc, Shape.parts, ha])
    refine Safe.bind (sound_mapM_remapAt_from ih hlt hargs) fun args' => ?_
    refine (sound_intern_typeOf (d := { d with shape := .cls name args' u })
      (s := .cls name (Targs.map (Ty.remap (σ.lookup ·))) Tu)).mono (fun t ht => ?_)
        fun h' t hT' => ?_
    · refine .cls name (List.forall₂_map_right_iff.2 ht.1) ?_
      cases hu with
      | none => exact .none
      | some hU => exact .some (typeOf_of_extending ht.2 hU)
    · simpa [Ty.remap, Ty.remapAll_eq_map] using hT'
  · -- a function type: its parameters, then its result
    rename_i ps r hf
    rw [hf] at hs
    cases hs with
    | @fn _ Tps _ Tr hps hr =>
    have hlt : ∀ a ∈ ps, a < fuel := fun a ha => hparts a (by simp [hf, Shape.parts, ha])
    refine Safe.bind (sound_mapM_remapAt_from ih hlt hps) fun ps' => ?_
    refine Safe.bind (((ih r Tr (hparts r (by simp [hf, Shape.parts]))).frame
      (R := fun t => List.Forall₂ (fun h U => t.typeOf h = .ok (U.remap (σ.lookup ·))) ps' Tps)
      fun _ _ hg hR => forall₂_typeOf_of_extending hg hR).mono
        (fun t ht => ⟨typeOf_of_extending ht.2 hr, ht.1⟩) fun _ _ hq => hq) fun r' => ?_
    refine (sound_intern_typeOf (d := { d with shape := .fn ps' r' })
      (s := .fn (Tps.map (Ty.remap (σ.lookup ·))) (Tr.remap (σ.lookup ·)))).mono
        (fun t ht => .fn (List.forall₂_map_right_iff.2 ht.2) ht.1) fun h' t hT' => ?_
    simpa [Ty.remap, Ty.remapAll_eq_map] using hT'
  · -- any other type is kept
    rename_i b hb
    rw [hb] at hs
    cases hs
    exact Safe.pure _ fun t ht => typeOf_of_extending ht hT

/-- Substitution on a handle is substitution on the type it stands for; with nothing to
substitute, the handle is kept. -/
theorem sound_remap_typeOf (σ : List (Nat × Nat)) (h : Nat) (T : Ty) :
    Sound (fun t => t.typeOf h = .ok T) (remap σ h)
      fun h' t => t.typeOf h' = .ok (T.remap (σ.lookup ·)) := by
  unfold remap
  split
  · rename_i hσ
    have hnone : T.remap (σ.lookup ·) = T := by
      simpa [List.isEmpty_iff.1 hσ] using Ty.remap_none T
    exact Safe.pure _ fun _ hT => by rw [hnone]; exact hT
  · -- the walk is given the size of the table as fuel
    refine Safe.bind (sound_get _) fun t₀ => ?_
    exact (Safe.of_pure_and fun hlt => sound_remapAt_typeOf σ h T hlt).of_inv
      fun t _ ht => ⟨ht.1 ▸ lt_size_of_typeOf ht.2, ht.2⟩

/-- Substituting in a handle of a reachable interner succeeds, in a reachable interner that
extends it, at a handle that stands for the substituted type. -/
theorem Reachable.remap_typeOf {t : TypeInterner} (ht : Reachable t) {h : Nat} {T : Ty}
    (hT : t.typeOf h = .ok T) (σ : List (Nat × Nat)) :
    ∃ h' t', remap σ h t = .ok (h', t') ∧ Reachable t' ∧ extending.rel t t' ∧
      t'.typeOf h' = .ok (T.remap (σ.lookup ·)) := by
  obtain ⟨h', t', hrun, -, hg, hT'⟩ := Safe.exists_ok (sound_remap_typeOf σ h T) ht.inv hT
  have hc : ∀ p ∈ (InternerCall.remap σ h).handles, p < t.types.size := by
    simp [InternerCall.handles, lt_size_of_typeOf hT]
  exact ⟨h', t', hrun, .call ht hc hrun, hg, hT'⟩

/-- **Substitution on handles is structural substitution.** In a reachable interner a handle
stands for a type `T`, and substituting by `σ` succeeds, in a reachable interner, at a handle
that stands for `T` with each parameter `p` that `σ` maps replaced by its image. So the handle
comes back unchanged exactly when every parameter of `T` that `σ` maps is mapped to itself; the
result has a composable part exactly when `T` has; and substituting by `σ` and then by `σ₂` ends
at the handle that substituting once by any `σ₁₂` ends at, when `σ₁₂` sends each parameter
where `σ` and then `σ₂` send it (each map extended by the identity). -/
theorem Reachable.remap_substitutes {t : TypeInterner} (ht : Reachable t) {h : Nat}
    (hh : h < t.types.size) :
    ∃ T, t.typeOf h = .ok T ∧ ∀ σ : List (Nat × Nat), ∃ h' t', remap σ h t = .ok (h', t') ∧
      Reachable t' ∧ t'.typeOf h' = .ok (T.remap (σ.lookup ·)) ∧
      (h' = h ↔ ∀ p ∈ T.paramRefs, ∀ q, σ.lookup p = some q → q = p) ∧
      t.hasComposable h = .ok T.hasComposable ∧ t'.hasComposable h' = .ok T.hasComposable ∧
      ∀ σ₂ σ₁₂ : List (Nat × Nat),
        (∀ p, (σ₁₂.lookup p).getD p =
          (σ₂.lookup ((σ.lookup p).getD p)).getD ((σ.lookup p).getD p)) →
        ∃ h₂ t₂ h₃ t₃, remap σ₂ h' t' = .ok (h₂, t₂) ∧ remap σ₁₂ h t₂ = .ok (h₃, t₃) ∧
          h₃ = h₂ := by
  obtain ⟨T, hT⟩ := ht.inv.exists_typeOf hh
  refine ⟨T, hT, fun σ => ?_⟩
  obtain ⟨h', t', hrun, ht', hg, hT'⟩ := ht.remap_typeOf hT σ
  have hcomposable : t'.hasComposable h' = .ok T.hasComposable := by
    rw [hasComposable_of_typeOf hT', Ty.hasComposable_remap]
  refine ⟨h', t', hrun, ht', hT', ?_, hasComposable_of_typeOf hT, hcomposable,
    fun σ₂ σ₁₂ hσ => ?_⟩
  · -- the interner keeps a type at one handle
    rw [← Ty.remap_eq_self_iff]
    constructor
    · rintro rfl
      have := hT'.symm.trans (typeOf_of_extending hg hT)
      exact Except.ok.inj this
    · intro hfix
      exact ht'.inv.typeOf_injective hT' (by rw [hfix]; exact typeOf_of_extending hg hT)
  · obtain ⟨h₂, t₂, hrun₂, ht₂, hg₂, hT₂⟩ := ht'.remap_typeOf hT' σ₂
    -- `h` still stands for `T` after both substitutions
    have hT₀ : t₂.typeOf h = .ok T := typeOf_of_extending (extending.trans hg hg₂) hT
    obtain ⟨h₃, t₃, hrun₃, ht₃, hg₃, hT₃⟩ := ht₂.remap_typeOf hT₀ σ₁₂
    -- substituting twice is substituting once by the composed map
    have hcomp : (T.remap (σ.lookup ·)).remap (σ₂.lookup ·) = T.remap (σ₁₂.lookup ·) := by
      rw [Ty.remap_remap]
      exact Ty.remap_congr_getD T fun p _ => by simp [Ty.composeSubst, hσ p]
    refine ⟨h₂, t₂, h₃, t₃, hrun₂, hrun₃, ht₃.inv.typeOf_injective hT₃ ?_⟩
    rw [← hcomp]
    exact typeOf_of_extending hg₃ hT₂

/-- Handle `10` of `boxInterner` stands for `Box<T>?`. -/
theorem boxInterner_typeOf :
    boxInterner.typeOf 10 = .ok (Ty.cls "Box" [Ty.param 0]).withNullable := by
  -- a read looks at the table only
  have h : boxInterner = ⟨boxInterner.cache, commonData.toArray ++ boxData.toArray⟩ := by
    rw [← boxInterner_types]
  rw [h]
  rfl

/-- In the interner holding `Box<T>?` at handle `10`, substituting the parameter `1` for `0`
hands out another handle, standing for `Box<U>?` with the nullable flag kept. -/
theorem nullableBox_remap_substitutes :
    Reachable boxInterner ∧
      boxInterner.typeOf 10 = .ok (Ty.cls "Box" [Ty.param 0]).withNullable ∧
      ∃ h' t', remap [(0, 1)] 10 boxInterner = .ok (h', t') ∧ Reachable t' ∧
        t'.typeOf h' = .ok (Ty.cls "Box" [Ty.param 1]).withNullable ∧ h' ≠ 10 ∧
        t'.hasComposable h' = .ok false := by
  have hT := boxInterner_typeOf
  obtain ⟨T, hT', hsub⟩ :=
    Reachable.remap_substitutes reachable_boxInterner (lt_size_of_typeOf hT)
  obtain rfl : T = _ := Except.ok.inj (hT'.symm.trans hT)
  obtain ⟨h', t', hrun, ht', hT'', hfix, -, hcomp, -⟩ := hsub [(0, 1)]
  refine ⟨reachable_boxInterner, hT, h', t', hrun, ht', hT'', fun h10 => ?_, hcomp⟩
  -- the parameter `0` of `Box<T>?` is sent to `1`
  have := (hfix.1 h10) 0 (by decide) 1 rfl
  omega

end TypeInterner

end ComposeLowering
