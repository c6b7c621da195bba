import Mathlib.Data.Finset.Card
import ComposeLowering.Proofs.Composer.Settled

/-!
# A second run of the composer pass changes nothing

Run the composer pass again, with a fresh transformer, over the module a run produced: it
succeeds, allocates nothing, lowers no declaration and no call, and gives back the module as it
was. Two facts give it.

* The first run leaves every member of every container settled
  (`Composer.run_settles`): nothing at or below a member needs a clone.
* A run over a module whose members are settled is *quiet* (`Composer.Quiet`): it succeeds
  and changes nothing but the list of declarations recorded as lowered. A visit of a settled
  declaration finds it needs no clone and returns it; it then takes out its defaults and body,
  visits the functions nested in them, which returns each as it is, and puts the same
  expressions back. The visits end without running out of fuel because each takes out the
  expressions of one declaration that holds a nested function, and there are fewer of those
  than the fuel of a run (`Module.busyDecls`).

Last, recomputing the parents of a module whose parents were just recomputed changes nothing
(`Module.patchParents_patchParents`), since the result reads no parent.
-/

namespace ComposeLowering

namespace Module

/-! ## Taking expressions out and putting them back -/

theorem putDefaults_undefaulted (ps : List Param) :
    putDefaults (ps.map fun p => { p with default := none }) (ps.map (·.default)) = ps := by
  rw [putDefaults_map_cleared]
  exact List.map_id'' (fun _ => rfl) ps

/-- Putting back the expressions just taken out of a declaration gives back the module. -/
theorem putExprs_takeExprs (m : Module) (d : DeclId) :
    (m.takeExprs d).1.putExprs d (m.takeExprs d).2 = m := by
  refine eq_of_decl_eq rfl (by simp [putExprs, takeExprs_fst]) fun y => ?_
  by_cases hy : d = y ∧ y < m.decls.size
  · obtain ⟨rfl, hd⟩ := hy
    simp [putExprs, takeExprs_fst, takeExprs_snd, decl_modifyDecl, decl_setDecl, hd,
      putDefaults_undefaulted]
  · simp only [putExprs, takeExprs_fst, decl_modifyDecl, decl_setDecl, decls_size_setDecl, if_neg hy]

/-! ## Declarations that hold a nested function -/

/-- The declarations of the arena whose defaults or body hold a nested function. -/
def busyDecls (m : Module) : Finset DeclId :=
  (Finset.range m.decls.size).filter fun d => m.nestedDecls d ≠ []

theorem card_busyDecls_le (m : Module) : m.busyDecls.card ≤ m.decls.size :=
  (Finset.card_filter_le _ _).trans (Finset.card_range _).le

/-- Taking out the expressions of a declaration that holds a nested function leaves one
declaration fewer that does. -/
theorem card_busyDecls_takeExprs {m : Module} {d y : DeclId} (h : m.Nests d y) :
    (m.takeExprs d).1.busyDecls.card < m.busyDecls.card := by
  have hsize : (m.takeExprs d).1.decls.size = m.decls.size := by
    rw [takeExprs_fst, decls_size_setDecl]
  have hdlt : d < m.decls.size := Nat.lt_of_not_le fun hle => not_nests_of_size_le hle h
  refine Finset.card_lt_card ((Finset.ssubset_iff_of_subset fun x hx => ?_).2 ⟨d, ?_, ?_⟩)
  · simp only [busyDecls, Finset.mem_filter, Finset.mem_range, hsize] at hx ⊢
    obtain ⟨z, hz⟩ := List.exists_mem_of_ne_nil _ hx.2
    exact ⟨hx.1, List.ne_nil_of_mem (nests_takeExprs hz).2⟩
  · simp only [busyDecls, Finset.mem_filter, Finset.mem_range]
    exact ⟨hdlt, List.ne_nil_of_mem h⟩
  · simp only [busyDecls, Finset.mem_filter, Finset.mem_range, not_and, not_not]
    intro _
    exact List.eq_nil_iff_forall_not_mem.2 fun z hz => (nests_takeExprs hz).1 rfl

/-! ## Recomputing the parents twice -/

/-- Recomputing the parents reads no parent. -/
theorem patchParents_eq_of_detached {m m' : Module} (h : m'.detached = m.detached) :
    m'.patchParents = m.patchParents := by
  have h' : { m' with decls := m'.decls.map fun (d : Decl) => { d with parent := .detached } } =
      { m with decls := m.decls.map fun (d : Decl) => { d with parent := .detached } } := h
  simp only [patchParents]
  rw [h']

theorem patchParents_patchParents (m : Module) : m.patchParents.patchParents = m.patchParents :=
  patchParents_eq_of_detached (detached_patchParents m)

end Module

/-! ## Rebuilding an expression as it is -/

namespace StepSemantics

variable {m : Type → Type} [Monad m] {σ ε α : Type} {S : StepSemantics m σ ε}
  {Bad : ε → Prop} {G : Growth σ} {I P : σ → Prop}

theorem Safe.option_self [LawfulMonad m] {f : α → m α} (o : Option α)
    (hf : ∀ a ∈ o, S.Safe Bad G I P (f a) fun r _ => r = a) :
    S.Safe Bad G I P (o.mapM f) fun r _ => r = o :=
  (Safe.option_eq (F := id) o hf).mono (fun _ h => h) fun _ _ h => by simp [h]

theorem Safe.mapM_self [LawfulMonad m] {f : α → m α} (hP : G.Persists P) (xs : List α)
    (hf : ∀ a ∈ xs, S.Safe Bad G I P (f a) fun r _ => r = a) :
    S.Safe Bad G I P (xs.mapM f) fun r _ => r = xs :=
  (Safe.mapM_eq (F := id) hP xs hf).mono (fun _ h => h) fun _ _ h => by simp [h]

/-- Rebuilding an expression whose nested functions each come back as they are gives back the
expression. -/
theorem Safe.mapNestedM_self [LawfulMonad m] {g : DeclId → m DeclId} (hP : G.Persists P) (e : Expr)
    (hg : ∀ y ∈ e.nestedFns, S.Safe Bad G I P (g y) fun r _ => r = y) :
    S.Safe Bad G I P (e.mapNestedM g) fun r _ => r = e := by
  have hchild : ∀ c ∈ e.children, S.Safe Bad G I P (c.mapNestedM g) fun r _ => r = c :=
    fun c hc => Safe.mapNestedM_self hP c fun y hy =>
      hg y (Expr.nestedFns_subset_of_mem_children hc hy)
  have hstable : ∀ {β : Type} (b : β), G.Stable fun (r : β) (_ : σ) => r = b :=
    fun _ _ _ _ _ h => h
  rw [Expr.mapNestedM]
  change S.Safe Bad G I P (e.mapChildrenM (Expr.mapNestedM g) g) _
  cases e with
  | const | get | maskBit => exact Safe.pure _ fun _ _ => rfl
  | fn d t =>
    refine Safe.bind (hg d (Expr.mem_nestedFns.2 (.inl rfl))) fun d' => ?_
    exact Safe.of_pure_pre fun h => h ▸ Safe.pure _ fun _ _ => rfl
  | set v x t | letVal v x t | ret v x t | inlineNew x t =>
    refine Safe.bind (hchild x (by simp [Expr.children])) fun x' => ?_
    exact Safe.of_pure_pre fun h => h ▸ Safe.pure _ fun _ _ => rfl
  | block xs t | composite o xs t | vararg xs t =>
    first
      | rw [(Expr.mapChildrenM_list (Expr.mapNestedM g) g xs t .statements).1]
      | rw [(Expr.mapChildrenM_list (Expr.mapNestedM g) g xs t o).2.1]
      | rw [(Expr.mapChildrenM_list (Expr.mapNestedM g) g xs t .statements).2.2]
    refine Safe.bind (Safe.mapM_self hP xs fun c hc => hchild c (by simpa [Expr.children] using hc))
      fun ys => ?_
    exact Safe.of_pure_pre fun h => h ▸ Safe.pure _ fun _ _ => rfl
  | ite c a b t =>
    rw [Expr.mapChildrenM_ite]
    refine Safe.bind_persist (hchild c (by simp [Expr.children])) (hstable c) hP fun c' => ?_
    refine Safe.bind_persist (hchild a (by simp [Expr.children])) (hstable a) hP fun a' => ?_
    refine Safe.bind_persist (Safe.option_self b fun y hy => hchild y ?_) (hstable b) hP
      fun b' => Safe.pure _ fun _ _ hb ha hc => by rw [hb, ha, hc]
    simp [Expr.children, Option.mem_def.1 hy]
  | call tgt d x ta as cc t =>
    rw [Expr.mapChildrenM_call]
    have hmem : ∀ o ∈ (d :: x :: as), ∀ y ∈ o, y ∈ (Expr.call tgt d x ta as cc t).children := by
      intro o ho y hy
      simp only [Expr.children, List.mem_append, List.mem_filterMap, id, Option.mem_toList]
      rcases List.mem_cons.1 ho with rfl | ho
      · exact .inl (.inl hy)
      rcases List.mem_cons.1 ho with rfl | ho
      · exact .inl (.inr hy)
      · exact .inr ⟨o, ho, hy⟩
    refine Safe.bind_persist (Safe.option_self d fun y hy => hchild y
      (hmem d List.mem_cons_self y hy)) (hstable d) hP fun d' => ?_
    refine Safe.bind_persist (Safe.option_self x fun y hy => hchild y
      (hmem x (List.mem_cons_of_mem _ List.mem_cons_self) y hy)) (hstable x) hP fun x' => ?_
    refine Safe.bind_persist (Safe.mapM_self hP as fun o ho => Safe.option_self o fun y hy =>
      hchild y (hmem o (List.mem_cons_of_mem _ (List.mem_cons_of_mem _ ho)) y hy)) (hstable as) hP
        fun as' => Safe.pure _ fun _ _ has hx hd => by rw [has, hx, hd]
termination_by sizeOf e
decreasing_by exact Expr.sizeOf_lt_of_mem_children hc

end StepSemantics

namespace Composer

/-! ## Quiet runs -/

/-- How a quiet run may change the state: it records declarations as lowered, and nothing
else. -/
structure Idle (s s' : ComposerState) : Prop where
  module_eq : s'.module = s.module
  clones_eq : s'.clones = s.clones
  declarations_eq : s'.declarations = s.declarations
  calls_eq : s'.calls = s.calls

/-- Quiet steps as a preorder on the transformer's states. -/
def idling : Growth ComposerState :=
  ⟨Idle, fun _ => ⟨rfl, rfl, rfl, rfl⟩, fun h₁ h₂ =>
    ⟨h₂.module_eq.trans h₁.module_eq, h₂.clones_eq.trans h₁.clones_eq,
      h₂.declarations_eq.trans h₁.declarations_eq, h₂.calls_eq.trans h₁.calls_eq⟩⟩

/-- The step `x`, run from a state with no clone recorded that satisfies `P`, succeeds, changes
at most which declarations are recorded as lowered, and returns a result satisfying `Q`, for
every choice of options. -/
def Quiet {α : Type} (P : ComposerState → Prop) (x : M α) (Q : α → ComposerState → Prop) : Prop :=
  ∀ opts, (sem opts).Safe (fun _ => True) idling (fun s => s.clones = []) P x Q

theorem persists_module_eq (m : Module) : idling.Persists fun s => s.module = m :=
  fun _ _ h hs => h.module_eq.trans hs

/-- A declaration that needs no clone, with none recorded, is its own lowered form. -/
theorem lowerDecl_of_needsClone_false (fuel : Nat) {d : DeclId} (opts : LowerOptions)
    {s : ComposerState} (hn : (s.module.decl d).needsClone = false)
    (hc : s.clones.lookup d = none) :
    lowerDecl fuel d opts s = .ok (d, s) ∨
      lowerDecl fuel d opts s = .ok (d, { s with lowered := d :: s.lowered }) := by
  rw [lowerDecl.eq_def, run_bind, run_get]
  simp only [Except.bind, hc]
  rw [needsClone_decl] at hn
  split
  · exact .inl rfl
  split
  · exact .inl rfl
  split
  · exact .inl rfl
  split
  · exact .inl rfl
  split
  · exact .inr rfl
  · -- with every guard false, the declaration would need a clone
    simp_all

theorem quiet_lowerDecl (fuel : Nat) (d : DeclId) :
    Quiet (fun s => (s.module.decl d).needsClone = false) (lowerDecl fuel d) fun r _ => r = d := by
  intro opts
  refine StepSemantics.Safe.of_run fun s hc hn => ?_
  rcases lowerDecl_of_needsClone_false fuel opts hn (by rw [hc]; rfl) with h | h
  · exact ⟨d, s, h, hc, ⟨rfl, rfl, rfl, rfl⟩, rfl⟩
  · exact ⟨d, _, h, hc, ⟨rfl, rfl, rfl, rfl⟩, rfl⟩

/-- Taking out the expressions of a declaration, visiting the functions nested in them, each of
which comes back as it is, and putting them back gives back the module. -/
theorem quiet_mapExprs {m : Module} {g : DeclId → M DeclId} {d : DeclId}
    (hg : ∀ y, m.Nests d y →
      Quiet (fun s => s.module = (m.takeExprs d).1) (g y) fun r _ => r = y) :
    Quiet (fun s => s.module = m) (mapExprs (Expr.mapNestedM g) d) fun _ _ => True := by
  intro opts
  refine StepSemantics.Safe.of_run fun s hc hm => ?_
  subst hm
  -- the expressions taken out come back as they are
  have hwalk : ∀ e ∈ (s.module.decl d).owned, (sem opts).Safe (fun _ => True) idling
      (fun s => s.clones = []) (fun t => t.module = (s.module.takeExprs d).1)
      (e.mapNestedM g) fun r _ => r = e := fun e he =>
    StepSemantics.Safe.mapNestedM_self (persists_module_eq _) e fun y hy =>
      hg y (Decl.mem_nestedFns.2 ⟨e, he, hy⟩) opts
  obtain ⟨defaults, s₃, h₃, hc₃, hi₃, hdefaults⟩ := StepSemantics.Safe.exists_ok
    ((StepSemantics.Safe.mapM_self (persists_module_eq _) (s.module.takeExprs d).2.defaults
      fun o ho => StepSemantics.Safe.option_self o fun e he =>
        hwalk e (Module.mem_owned_of_takeExprs_defaults ho he)).keep
      (persists_module_eq _)) (s := { s with module := (s.module.takeExprs d).1 }) hc rfl
  obtain ⟨body, s₄, h₄, hc₄, hi₄, hbody⟩ := StepSemantics.Safe.exists_ok
    (StepSemantics.Safe.option_self (s.module.takeExprs d).2.body fun e he =>
      hwalk e (Module.mem_owned_of_takeExprs_body he)) hc₃ hdefaults.2
  have hm₄ : s₄.module = (s.module.takeExprs d).1 := hi₄.module_eq.trans hdefaults.2
  refine ⟨(), { s₄ with module := s.module }, ?_, hc₄, ⟨rfl, hi₄.clones_eq.trans hi₃.clones_eq,
    hi₄.declarations_eq.trans hi₃.declarations_eq, hi₄.calls_eq.trans hi₃.calls_eq⟩, trivial⟩
  refine mapExprs_eq_ok.2 ⟨defaults, s₃, body, s₄, h₃, h₄, ?_⟩
  rw [hm₄, hdefaults.1, hbody, Module.putExprs_takeExprs]

/-- A settled declaration, visited with more fuel than there are declarations holding a nested
function, comes back as it is, and so does everything nested in it. -/
theorem quiet_visitDecl : ∀ (k : Nat) (m : Module), m.busyDecls.card < k → ∀ y, m.Settled y →
    Quiet (fun s => s.module = m) (visitDecl k y) fun r _ => r = y
  | 0, _, hk, _, _ => absurd hk (Nat.not_lt_zero _)
  | k + 1, m, hk, y, hy => by
    intro opts
    rw [visitDecl]
    refine StepSemantics.Safe.bind (((quiet_lowerDecl k y opts).frame (persists_module_eq m)).mono
      (fun s hs => ⟨hs ▸ hy.needsClone, hs⟩) fun _ _ h => h) fun r => ?_
    refine StepSemantics.Safe.of_pure_and fun hr => ?_
    subst hr
    -- each function nested in `y` is visited in the module with `y`'s expressions taken out
    refine StepSemantics.Safe.bind (quiet_mapExprs (fun z hz => quiet_visitDecl k _
      (Nat.lt_of_lt_of_le (Module.card_busyDecls_takeExprs hz) (Nat.le_of_lt_succ hk)) z
      ((framed_takeExprs { module := m } r).visited.settled (hy.nests hz))) opts) fun _ => ?_
    exact StepSemantics.Safe.pure r fun _ _ => rfl

/-- A run has more fuel than its module has declarations. -/
theorem lt_fuelFor (m : Module) : m.decls.size < fuelFor m := by
  unfold fuelFor
  exact Nat.lt_of_lt_of_le (by omega) (Nat.le_mul_of_pos_right _ (by omega))

theorem getModule_safe (opts : LowerOptions) {Bad : LowerError → Prop} {G : Growth ComposerState}
    {I P : ComposerState → Prop} :
    (sem opts).Safe Bad G I P getModule fun m s => m = s.module ∧ P s :=
  StepSemantics.Safe.of_run fun s hI hP => ⟨s.module, s, rfl, hI, G.refl s, rfl, hP⟩

/-- A run over a module whose members are all settled, and whose parents are as recomputing
them gives, is quiet and gives back the module. -/
theorem quiet_lowerModule {m : Module}
    (hm : ∀ c ∈ m.containersInOrder, ∀ x ∈ (m.container c).members, m.Settled x)
    (hp : m.patchParents = m) :
    Quiet (fun s => s.module = m) lowerModule fun _ s => s.module = m := by
  intro opts
  unfold lowerModule
  refine StepSemantics.Safe.bind (getModule_safe opts) fun m₀ => ?_
  refine StepSemantics.Safe.of_start fun s₀ _ hs₀ => ?_
  obtain rfl : m₀ = m := hs₀.1.trans hs₀.2
  have hpre : ∀ s, s = s₀ → s.module = m₀ := fun s hs => hs ▸ hs₀.2
  refine StepSemantics.Safe.bind ((StepSemantics.Safe.forIn (P := fun s => s.module = m₀) _ _
    fun c hc _ => ?_).mono hpre fun _ _ h => h) fun _ => ?_
  · refine StepSemantics.Safe.bind (getModule_safe opts) fun m₁ => ?_
    refine StepSemantics.Safe.of_start fun s₁ _ hs₁ => ?_
    obtain rfl : m₁ = m₀ := hs₁.1.trans hs₁.2
    refine StepSemantics.Safe.bind ((StepSemantics.Safe.forIn (P := fun s => s.module = m₁) _ _
      fun x hx _ => ?_).mono (fun s hs => hs ▸ hs₁.2) fun _ _ h => h) fun _ =>
        StepSemantics.Safe.pure _ fun _ h => h
    -- a member comes back as it is, so it is not replaced
    refine StepSemantics.Safe.bind (((quiet_visitDecl (fuelFor m₁) m₁ (Nat.lt_of_le_of_lt
      (Module.card_busyDecls_le m₁) (lt_fuelFor m₁)) x (hm c hc x hx) opts).frame
        (persists_module_eq m₁)).mono (fun _ h => ⟨h, h⟩) fun _ _ h => h) fun new => ?_
    refine StepSemantics.Safe.of_pure_and fun hnew => ?_
    subst hnew
    rw [if_neg (not_not.2 rfl)]
    exact StepSemantics.Safe.pure _ fun _ h => h
  · refine StepSemantics.Safe.of_run fun s hc hs => ⟨(), { s with module := s.module.patchParents },
      rfl, hc, ⟨?_, rfl, rfl, rfl⟩, ?_⟩
    · change s.module.patchParents = s.module
      rw [hs, hp]
    · change s.module.patchParents = m₀
      rw [hs, hp]

/-- A run over a module whose members are all settled, and whose parents are as recomputing
them gives, succeeds, gives back the module, and lowers no declaration and no call. -/
theorem run_quiet {opts : LowerOptions} {m : Module}
    (hm : ∀ c ∈ m.containersInOrder, ∀ x ∈ (m.container c).members, m.Settled x)
    (hp : m.patchParents = m) :
    ∃ s, run opts m = .ok s ∧ s.module = m ∧ s.declarations = 0 ∧ s.calls = 0 := by
  obtain ⟨u, s, hrun, -, hidle, hs⟩ :=
    StepSemantics.Safe.exists_ok (quiet_lowerModule hm hp opts) (s := { module := m }) rfl rfl
  refine ⟨s, ?_, hs, hidle.declarations_eq, hidle.calls_eq⟩
  change lowerModule opts { module := m } = .ok (u, s) at hrun
  unfold run
  rw [ReaderT.run, StateT.run, hrun]
  rfl

end Composer

open Composer in
/-- The composer pass is idempotent: over a module whose containers and `fn` nodes hold only
declarations of the arena, a second run with a fresh transformer over the module a run produced
succeeds, gives back that module unchanged, declarations, parameters, defaults, bodies,
overrides, annotations, member lists and values alike, and lowers no declaration and no call. -/
theorem run_idempotent {opts : LowerOptions} {m : Module} {s : ComposerState} (hm : m.InArena)
    (h : run opts m = .ok s) :
    ∃ s', run opts s.module = .ok s' ∧ s'.module = s.module ∧ s'.declarations = 0 ∧
      s'.calls = 0 := by
  obtain ⟨hswept, m', hm'⟩ := run_settles hm h
  have hp : s.module.patchParents = s.module := by
    rw [hm', Module.patchParents_patchParents]
  exact run_quiet (fun c hc x hx => hswept.settled c hc List.not_mem_nil x hx) hp

/-- `F` takes a parameter with a default and holds `L`, a composable lambda that is not passed
inline: a run clones both. -/
def lambdaModule : Module :=
  { name := "app",
    decls := #[
      { name := "F", kind := .function, parent := .container 0, annotations := [.composable],
        params := [{ value := 0, name := "x", ty := Ty.int, default := some (Expr.intLit 1) }],
        body := some (.block [.fn 1 Ty.any] Ty.unit) },
      { name := "L", kind := .function, origin := .lambda, visibility := .local, parent := .decl 0,
        annotations := [.composable], body := some (.block [] Ty.unit) }],
    containers := #[{ kind := .file "p", members := [0] }],
    files := [0], values := #["x"] }

theorem lambdaModule_rerun_idle :
    lambdaModule.InArena ∧ ∃ s, Composer.run {} lambdaModule = .ok s ∧ s.declarations = 2 ∧
      ∃ s', Composer.run {} s.module = .ok s' ∧ s'.module = s.module ∧ s'.declarations = 0 ∧
        s'.calls = 0 := by
  have hm : lambdaModule.InArena := Module.inArena_of_check (by decide +kernel)
  have hrun : (match Composer.run {} lambdaModule with
      | .ok s => s.declarations == 2
      | .error _ => false) = true := by
    decide +kernel
  cases hr : Composer.run {} lambdaModule with
  | error e => rw [hr] at hrun; cases hrun
  | ok s =>
    rw [hr] at hrun
    exact ⟨hm, s, rfl, by simpa using hrun, run_idempotent hm hr⟩

end ComposeLowering
