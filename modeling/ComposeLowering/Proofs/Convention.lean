import ComposeLowering.Proofs.Composer.Run
import ComposeLowering.Proofs.Decoys

/-!
# The calling convention of a lowered module

Lowering gives every composable declaration a composer parameter and every call made in a
composable context its composer arguments. Afterwards callers and callees agree on a calling
convention (`Module.FollowsConvention`):

* every call marked as given its composer arguments goes to a declaration of the arena with
  exactly one composer parameter and one argument slot per parameter, or to an `invoke` with one
  slot per argument, and never to the decoy intrinsic (`Module.ConventionalCall`);
* every declaration with a composer parameter lists its real parameters first and then exactly
  the synthetic parameters for that many real parameters and its receivers: the composer, the
  change words, then the default masks or none (`Decl.LoweredForm`); a constructor never has
  default masks, and any other declaration with a default value of its own has them.

This holds of every module lowering accepts, with or without decoys, as long as nothing in it
was lowered before (`Module.Unlowered`); a well-formed module in which no call is marked is such
a module. The proof follows the pipeline: the decoy passes keep the module unlowered, the
composer pass keeps `Composer.Inv` from there, and recording signatures changes only
annotations. The convention is then read off the invariant.

A call that is marked before lowering is kept as it is, so it may go to a declaration with no
composer parameter; and the callee of a marked call need not be attached to a container, since
the clone of an external declaration is not (`marked_calls_of_external_and_premarked`). Nor does
the convention say when a declaration whose own parameters have no default gets default masks
for a default of a declaration it overrides: the pass reads the overrides in the module as it
stands when the clone is made, while the defaults of the declarations being lowered are taken
out.
-/

namespace ComposeLowering

/-! ## Lowered form -/

theorem SyntheticParam.isSynthetic_origin (p : SyntheticParam) : p.origin.isSynthetic = true := by
  cases p <;> rfl

namespace Decl.LoweredForm

variable {x : Decl} {n : Nat} {b : Bool}

/-- A declaration in lowered form over `n` real parameters has exactly `n` of them. -/
theorem realParams_length (h : x.LoweredForm n b) : x.realParams.length = n := by
  obtain ⟨real, hparams, hlen, hreal, -⟩ := h
  have hreal' : real.countP (fun o => !o.isSynthetic) = real.length :=
    List.countP_eq_length.2 fun o ho => by simp [hreal o ho]
  have hsynthetic : ((Synthetic.params n x.receiverSlots b).map SyntheticParam.origin).countP
      (fun o => !o.isSynthetic) = 0 :=
    List.countP_eq_zero.2 fun o ho => by
      obtain ⟨q, -, rfl⟩ := List.mem_map.1 ho
      simp [SyntheticParam.isSynthetic_origin]
  calc x.realParams.length
      = (x.params.map (·.origin)).countP (fun o => !o.isSynthetic) := by
        rw [List.countP_map, List.countP_eq_length_filter]
        rfl
    _ = n := by rw [hparams, List.countP_append, hreal', hsynthetic, hlen, Nat.add_zero]

/-- A declaration in lowered form has exactly one composer parameter. -/
theorem count_composer (h : x.LoweredForm n b) :
    (x.params.map (·.origin)).count .composer = 1 := by
  obtain ⟨real, hparams, -, hreal, -⟩ := h
  have hnone : real.count .composer = 0 :=
    List.count_eq_zero.2 fun hc => Bool.noConfusion (hreal _ hc)
  rw [hparams, List.count_append, hnone, Synthetic.params]
  -- after the composer come change words and default masks only
  split <;> simp [SyntheticParam.origin, List.count_eq_zero]

/-- A declaration in lowered form has as many synthetic parameters as the calculator says. -/
theorem syntheticCount (h : x.LoweredForm n b) :
    (x.params.filter (·.origin.isSynthetic)).length = Synthetic.paramCount n x.receiverSlots b := by
  obtain ⟨real, hparams, -, hreal, -⟩ := h
  have hreal' : real.countP (fun o => o.isSynthetic) = 0 :=
    List.countP_eq_zero.2 fun o ho => by simp [hreal o ho]
  have hsynthetic : ((Synthetic.params n x.receiverSlots b).map SyntheticParam.origin).countP
      (fun o => o.isSynthetic) = Synthetic.paramCount n x.receiverSlots b := by
    rw [List.countP_eq_length.2, List.length_map, Synthetic.length_params]
    intro o ho
    obtain ⟨q, -, rfl⟩ := List.mem_map.1 ho
    exact SyntheticParam.isSynthetic_origin q
  calc (x.params.filter (·.origin.isSynthetic)).length
      = (x.params.map (·.origin)).countP (fun o => o.isSynthetic) := by
        rw [List.countP_map, List.countP_eq_length_filter]
        rfl
    _ = Synthetic.paramCount n x.receiverSlots b := by
        rw [hparams, List.countP_append, hreal', hsynthetic, Nat.zero_add]

end Decl.LoweredForm

/-! ## The convention -/

namespace Module

/-- Where a call marked as given its composer arguments may go: to a declaration of the arena
with exactly one composer parameter and one argument slot per parameter, or to an `invoke` with
one slot per argument; never to the decoy intrinsic. -/
def ConventionalCall (m : Module) (c : Call) : Prop :=
  match c.target with
  | .decl t => t < m.decls.size ∧ ((m.decl t).params.map (·.origin)).count .composer = 1 ∧
      c.args.length = (m.decl t).params.length
  | .invoke k => c.args.length = k
  | .decoy => False

/-- The calling convention that lowering establishes between callers and callees. -/
structure FollowsConvention (m : Module) : Prop where
  /-- Every marked call goes where the convention allows. -/
  marked_calls : ∀ d, ∀ e ∈ (m.decl d).nodes, ∀ c, e.call? = some c → c.composable = true →
    m.ConventionalCall c
  /-- Every declaration with a composer parameter is in lowered form over its real
  parameters, with default masks if it is no constructor and has a default value of its own. -/
  lowered_form : ∀ d, ParamOrigin.composer ∈ (m.decl d).params.map (·.origin) →
    ∃ b, (m.decl d).LoweredForm (m.decl d).realParams.length b ∧
      ((m.decl d).kind ≠ .constructor → (m.decl d).hasDefaultValues = true → b = true)

/-- The convention reads nothing of annotations. -/
theorem FollowsConvention.reannotated {m m' : Module} (h : m.FollowsConvention)
    (hr : m.Reannotated m') : m'.FollowsConvention where
  marked_calls d e he c hc hcc := by
    have hfit := h.marked_calls d e (hr.congr (f := Decl.nodes) (fun _ => rfl) d ▸ he) c hc hcc
    unfold ConventionalCall at hfit ⊢
    cases hc' : c.target with
    | decl t =>
      rw [hc'] at hfit
      dsimp only at hfit ⊢
      rw [hr.size_eq, hr.congr (f := Decl.params) (fun _ => rfl) t]
      exact hfit
    | invoke k => rw [hc'] at hfit; exact hfit
    | decoy => rw [hc'] at hfit; exact hfit
  lowered_form d hd := by
    have hparams := hr.congr (f := Decl.params) (fun _ => rfl) d
    obtain ⟨b, hform, hmasks⟩ := h.lowered_form d (hparams ▸ hd)
    refine ⟨b, ?_, fun hk hdef => hmasks ?_ ?_⟩
    · rw [show (m'.decl d).realParams = (m.decl d).realParams by simp [Decl.realParams, hparams]]
      exact hform.of_shape (hr.congr (f := Decl.signatureShape) (fun _ => rfl) d)
    · rwa [← hr.congr (f := Decl.kind) (fun _ => rfl) d]
    · rwa [← hr.congr (f := Decl.hasDefaultValues) (fun _ => rfl) d]

end Module

namespace Composer

variable {A : Prop} {s : ComposerState}

/-- A call that fits its target in an invariant state follows the convention. -/
theorem conventionalCall_of_fitsTarget (hI : Inv A s) {c : Call}
    (h : FitsTarget s c.target c.args.length) : s.module.ConventionalCall c := by
  unfold Module.ConventionalCall
  cases hc : c.target with
  | decl t =>
    rw [hc] at h
    obtain ⟨hl, hlt, hn⟩ := h
    obtain ⟨-, n, b, hform⟩ := hI.lowered_form t hl
    exact ⟨hlt, hform.count_composer, hn⟩
  | invoke k => rw [hc] at h; exact h
  | decoy => rw [hc] at h; exact h

/-- Between any two steps of the composer pass, the module follows the convention. -/
theorem Inv.followsConvention (hI : Inv A s) : s.module.FollowsConvention where
  marked_calls d e he c hc hcc := by
    have hfit := Decl.forall_nodes_iff.2 (hI.calls_fit d) e he
    unfold NodeFits at hfit
    rw [Expr.callShape?_of_call? hc, hcc] at hfit
    dsimp only at hfit
    rw [List.length_map] at hfit
    exact conventionalCall_of_fitsTarget hI hfit
  lowered_form d hd := by
    -- only lowered declarations have a composer parameter
    have hl : d ∈ s.lowered := by
      by_contra hnot
      obtain ⟨p, hp, hpo⟩ := List.mem_map.1 hd
      exact hI.no_composer d hnot p hp hpo
    obtain ⟨-, n, b, hform⟩ := hI.lowered_form d hl
    -- a declaration that needs masks has them; any other keeps the form it was lowered to
    by_cases hmask : (s.module.decl d).kind ≠ .constructor ∧
        (s.module.decl d).hasDefaultValues = true
    · obtain ⟨n', hform'⟩ := hI.masks_defaults d hl hmask.1 hmask.2
      exact ⟨true, hform'.realParams_length ▸ hform', fun _ _ => rfl⟩
    · exact ⟨b, hform.realParams_length ▸ hform, fun hk hdef => absurd ⟨hk, hdef⟩ hmask⟩

end Composer

/-! ## The pipeline -/

/-- Lowering an unlowered module runs the composer pass on an unlowered module and returns what
that pass leaves, with at most annotations changed. -/
theorem exists_run_of_lowerModule {ctx : LowerContext} {m m' : Module} {stats : LowerStats}
    (hm : m.Unlowered) (h : lowerModule ctx m = .ok (m', stats)) :
    ∃ m₀ s, m₀.Unlowered ∧ Composer.run ctx.options m₀ = .ok s ∧ s.module.Reannotated m' := by
  unfold lowerModule at h
  cases hd : ctx.options.decoysEnabled <;> simp only [hd, Bool.false_eq_true, ↓reduceIte] at h
  · -- without decoys only the composer pass runs
    simp only [pure_bind] at h
    obtain ⟨s, hs, h⟩ := except_bind_eq_ok.1 h
    simp only [pure, Except.pure, Except.ok.injEq, Prod.mk.injEq] at h
    exact ⟨m, s, hm, hs, h.1 ▸ Module.Agrees.refl _⟩
  · -- with decoys the composer pass runs between retargeting and recording
    obtain ⟨⟨m₁, k₁⟩, h₁, h⟩ := except_bind_eq_ok.1 h
    obtain ⟨⟨m₂, k₂⟩, h₂, h⟩ := except_bind_eq_ok.1 h
    obtain ⟨s, hs, h⟩ := except_bind_eq_ok.1 h
    obtain ⟨⟨m₃, k₃⟩, h₃, h⟩ := except_bind_eq_ok.1 h
    simp only [pure, Except.pure, Except.ok.injEq, Prod.mk.injEq] at h
    have hm₂ := Decoy.unlowered_retargetModule (Decoy.unlowered_splitModule hm h₁) h₂
    exact ⟨m₂, s, hm₂, hs, h.1 ▸ Decoy.reannotated_recordModule h₃⟩

/-- After a successful lowering of a module that nothing has lowered before, every marked call
goes to a declaration with exactly one composer parameter and one slot per parameter, or to an
`invoke` with one slot per argument, and every declaration with a composer parameter has its
real parameters first and then exactly its synthetic ones. -/
theorem lowerModule_followsConvention {ctx : LowerContext} {m m' : Module} {stats : LowerStats}
    (hm : m.Unlowered) (h : lowerModule ctx m = .ok (m', stats)) : m'.FollowsConvention := by
  obtain ⟨m₀, s, hm₀, hrun, hr⟩ := exists_run_of_lowerModule hm h
  exact (Composer.inv_run (A := False) hm₀ False.elim hrun).followsConvention.reannotated hr


/-! ## Lowering concrete modules -/

/-- `D` holds an inlined lambda `L` with one parameter `y = 1`, whose body calls `X(2)`; `X` has
one parameter `z` and overrides `L`. Lowering `D` clones `X` while the default of `L` is taken
out, so the clone of `X` gets no default mask although `L` declares a default. -/
def windowModule : Module :=
  { name := "app",
    decls := #[
      { name := "D", kind := .function, parent := .container 0, annotations := [.composable],
        body := some (.fn 2 Ty.any) },
      { name := "X", kind := .function, parent := .container 0, annotations := [.composable],
        overrides := [2], params := [{ value := 0, name := "z", ty := Ty.int }] },
      { name := "L", kind := .function, origin := .lambda, visibility := .local, parent := .decl 0,
        params := [{ value := 1, name := "y", ty := Ty.int, default := some (Expr.intLit 1) }],
        inlineArgument := some Ty.unit,
        body := some (.call (.decl 1) none none [] [some (Expr.intLit 2)] false Ty.unit) }],
    containers := #[{ kind := .file "p", members := [0, 1] }],
    files := [0], values := #["z", "y"] }

theorem windowModule_followsConvention :
    windowModule.Unlowered ∧ ∃ m' stats,
      lowerModule { options := { platform := .jvm } } windowModule = .ok (m', stats) ∧
        m'.FollowsConvention := by
  have hm : windowModule.Unlowered := Module.unlowered_of_check (by decide +kernel)
  have hok : (lowerModule { options := { platform := .jvm } } windowModule).isOk = true := by
    decide +kernel
  cases hr : lowerModule { options := { platform := .jvm } } windowModule with
  | error e => rw [hr] at hok; cases hok
  | ok r =>
    obtain ⟨m', stats⟩ := r
    exact ⟨hm, m', stats, rfl, lowerModule_followsConvention hm hr⟩

/-- `F` calls the external `E`, and `H` calls `G` with a call already marked as given its
composer arguments; `F`, `G` and `E` are composable. -/
def externalCallModule : Module :=
  { name := "app",
    decls := #[
      { name := "F", kind := .function, parent := .container 0, annotations := [.composable],
        body := some (.call (.decl 3) none none [] [] false Ty.unit) },
      { name := "H", kind := .function, parent := .container 0,
        body := some (.call (.decl 2) none none [] [] true Ty.unit) },
      { name := "G", kind := .function, parent := .container 0, annotations := [.composable] },
      { name := "E", kind := .externalSource, origin := .external, isExternal := true,
        annotations := [.composable] }],
    containers := #[{ kind := .file "p", members := [0, 1, 2] }],
    files := [0] }

/-- The well-formed `externalCallModule` lowers to a module whose file lists the clone of `F`
(declaration 4), `H` and the clone of `G`. The body of the clone of `F` is a marked call of the
clone of `E` (declaration 5), which has no parent; the body of `H` is still its marked call of
`G`, which has no composer parameter. -/
theorem marked_calls_of_external_and_premarked :
    externalCallModule.WellFormed ∧ ∃ m' stats,
      lowerModule { options := { platform := .jvm } } externalCallModule = .ok (m', stats) ∧
        (m'.container 0).members = [4, 1, 6] ∧
        ((m'.decl 4).body.bind Expr.call?).map (fun c => (c.composable, c.target)) =
          some (true, .decl 5) ∧
        (m'.decl 5).parent = .detached ∧
        ((m'.decl 1).body.bind Expr.call?).map (fun c => (c.composable, c.target)) =
          some (true, .decl 2) ∧
        ParamOrigin.composer ∉ (m'.decl 2).params.map (·.origin) := by
  refine ⟨Module.wellFormed_of_check (by decide +kernel), ?_⟩
  have hok : (match lowerModule { options := { platform := .jvm } } externalCallModule with
      | .ok (m', _) => decide ((m'.container 0).members = [4, 1, 6] ∧
          ((m'.decl 4).body.bind Expr.call?).map (fun c => (c.composable, c.target)) =
            some (true, .decl 5) ∧
          (m'.decl 5).parent = .detached ∧
          ((m'.decl 1).body.bind Expr.call?).map (fun c => (c.composable, c.target)) =
            some (true, .decl 2) ∧
          ParamOrigin.composer ∉ (m'.decl 2).params.map (·.origin))
      | .error _ => false) = true := by
    decide +kernel
  cases hr : lowerModule { options := { platform := .jvm } } externalCallModule with
  | error e => rw [hr] at hok; cases hok
  | ok r =>
    rw [hr] at hok
    exact ⟨r.1, r.2, rfl, of_decide_eq_true hok⟩

end ComposeLowering
