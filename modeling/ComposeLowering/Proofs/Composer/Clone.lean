import ComposeLowering.Proofs.Composer.Frame

/-!
# The shape of a clone

When `lowerDecl` meets a declaration that needs lowering and has no clone yet, it clones it: the
clone is appended to the arena with fresh values for its receivers and parameters, its
synthetic parameters after its real ones, and no overrides, defaults or body; then its overrides,
defaults and body are lowered and put in.

`cloneWithComposer_clonedFrom` describes the clone as the whole walk leaves it
(`Decl.ClonedFrom`): it keeps everything of the declaration it replaces but its receivers,
parameters, overrides, body and annotations; its annotations gain a link name for an accessor
with none; each receiver keeps all but its value; each real parameter takes a safe name,
becomes assignable and widens its type exactly when it declares a default, and keeps whether it
declares one; the synthetic parameters follow; and the values of all of them are fresh, numbered
in order from the first value the walk allocates.

## The argument

Allocating the clone only allocates values and appends the clone (`allocClone_fresh`). What the
walk does afterwards is framed (`Framed`, from `ComposeLowering.Proofs.Composer.Frame`) relative
to the state before the clone was appended, so every later step keeps the clone's core but for
the overrides set on it, and the defaults put back last are one for each parameter, each present
exactly where the declaration had one (`cloneWithComposer_framed`). The frame of the four walks
at every fuel (`frameWalks`) is proved together with it, by induction on the fuel.
-/

namespace ComposeLowering

/-- `p'` is `p` with another value. -/
def Param.Revalued (p p' : Param) : Prop := p' = { p with value := p'.value }

/-- The parameter `p` as a clone takes it, with the value `v`: a safe name, assignable and with
its type widened for a default exactly when it declares one, and its default taken out. -/
def Param.forClone (p : Param) (v : ValueId) : Param :=
  { p with value := v, name := Names.dexSafe p.name, assignable := p.default.isSome, default := none,
           ty := if p.default.isSome then Composer.defaultParameterType p.ty else p.ty }

/-- The type of a synthetic parameter: a nullable composer, or an integer word. -/
def SyntheticParam.ty : SyntheticParam → Ty
  | .composer => Ty.composer.withNullable
  | _ => Ty.int

/-- The synthetic parameter `sp` with the value `v`; only the composer is assignable. -/
def SyntheticParam.param (sp : SyntheticParam) (v : ValueId) : Param :=
  { value := v, name := sp.name, ty := sp.ty, origin := sp.origin, assignable := sp == .composer }

/-- The header of a declaration: its name, kind, origin, visibility, modality, flags, parent,
type parameters, return type and inline argument, with its receivers, parameters, overrides,
body and annotations left out. -/
def Decl.header (d : Decl) : Decl :=
  { d with dispatch := none, extension := none, params := [], overrides := [], body := none,
           annotations := [] }

/-- `d'` is the clone of `d` with values allocated from `v₀` on and synthetic parameters for
`h`, whatever its overrides, defaults and body. -/
structure Decl.ClonedFrom (d' d : Decl) (v₀ : ValueId) (h : Bool) : Prop where
  header_eq : d'.header = d.header
  /-- An accessor with no link name gets one. -/
  annotations_eq : d'.annotations = d.annotations ++ Composer.linkNameFor d
  dispatch : Option.Rel Param.Revalued d.dispatch d'.dispatch
  extension : Option.Rel Param.Revalued d.extension d'.extension
  /-- The real parameters come first, one for each parameter of `d`, in order. -/
  real : List.Forall₂ (fun p p' => p'.undefaulted = p.forClone p'.value) d.params
    (d'.params.take d.params.length)
  /-- Each real parameter declares a default exactly when its parameter in `d` does. -/
  real_defaults : (d'.params.take d.params.length).map (·.default.isSome) =
    d.params.map (·.default.isSome)
  /-- The synthetic parameters follow. -/
  synthetic : List.Forall₂ (fun sp p => p = sp.param p.value)
    (Synthetic.params d.params.length d.receiverSlots h) (d'.params.drop d.params.length)
  /-- The receivers and parameters have the values `v₀, v₀ + 1, …` in order. -/
  fresh : d'.explicitParams.map (·.value) = List.range' v₀ d'.explicitParams.length

namespace Param

/-- A parameter with no default is its own undefaulted form. -/
theorem undefaulted_of_default {p : Param} (h : p.default = none) : p.undefaulted = p := by
  cases p
  cases h
  rfl

theorem map_undefaulted_of_default {ps : List Param} (h : ∀ p ∈ ps, p.default = none) :
    ps.map undefaulted = ps :=
  (List.map_congr_left fun p hp => undefaulted_of_default (h p hp)).trans (List.map_id' _)

/-- Parameters built one by one by a function that declares no default declare none. -/
theorem default_eq_none_of_forall₂ {α : Type} {f : α → ValueId → Param}
    (hf : ∀ a v, (f a v).default = none) {xs : List α} {qs : List Param}
    (h : List.Forall₂ (fun a q => q = f a q.value) xs qs) : ∀ q ∈ qs, q.default = none :=
  forall_mem_of_forall₂ (h.imp fun a q hq => by rw [hq]; exact hf a _)

/-- Past the first `n` parameters, where the defaults are flagged absent, there is none. -/
theorem default_eq_none_of_drop {α : Type} {ps : List Param} {flags : List Bool} {ys : List α}
    {n : Nat} (h : ps.map (·.default.isSome) = flags ++ ys.map fun _ => false)
    (hn : flags.length = n) : ∀ p ∈ ps.drop n, p.default = none := by
  intro p hp
  have hmem : p.default.isSome ∈ (ps.drop n).map (·.default.isSome) := List.mem_map_of_mem hp
  rw [List.map_drop, h, ← hn, List.drop_left] at hmem
  obtain ⟨_, -, hq⟩ := List.mem_map.1 hmem
  simpa using hq.symm

/-- Parameters that read as `real ++ synthetic` once their defaults are forgotten, with no
default past the first `n`, end in `synthetic` itself. -/
theorem drop_eq_of_map_undefaulted {ps real synthetic : List Param} {n : Nat}
    (h : ps.map undefaulted = real ++ synthetic) (hn : real.length = n)
    (hnone : ∀ p ∈ ps.drop n, p.default = none) : ps.drop n = synthetic :=
  calc ps.drop n = (ps.drop n).map undefaulted := (map_undefaulted_of_default hnone).symm
    _ = synthetic := by rw [List.map_drop, h, ← hn, List.drop_left]

end Param

namespace Composer

/-! ## Allocating values -/

/-- `s'` is `s` with `k` more values and nothing else changed. -/
def Allocates (k : Nat) (s s' : ComposerState) : Prop :=
  ∃ vs : Array String, s' = { s with module := { s.module with values := vs } } ∧
    vs.size = s.module.values.size + k

theorem Allocates.refl (s : ComposerState) : Allocates 0 s s := ⟨s.module.values, rfl, rfl⟩

theorem Allocates.trans {k j : Nat} {s₁ s₂ s₃ : ComposerState} (h₁ : Allocates k s₁ s₂)
    (h₂ : Allocates j s₂ s₃) : Allocates (k + j) s₁ s₃ := by
  obtain ⟨vs₁, rfl, hvs₁⟩ := h₁
  obtain ⟨vs₂, rfl, hvs₂⟩ := h₂
  exact ⟨vs₂, rfl, by simp only at hvs₂; omega⟩

theorem Allocates.values_size {k : Nat} {s s' : ComposerState} (h : Allocates k s s') :
    s'.module.values.size = s.module.values.size + k := by
  obtain ⟨vs, rfl, hvs⟩ := h
  exact hvs

theorem Allocates.framed {k : Nat} {s s' : ComposerState} (h : Allocates k s s') : Framed s s' := by
  obtain ⟨vs, rfl, -⟩ := h
  exact framed_of_decls_eq rfl rfl rfl rfl

theorem allocates_newValue {name : String} {opts : LowerOptions} {s s' : ComposerState}
    {v : ValueId} (h : newValue name opts s = .ok (v, s')) :
    v = s.module.values.size ∧ Allocates 1 s s' := by
  simp only [run_newValue, Except.ok.injEq, Prod.mk.injEq] at h
  obtain ⟨rfl, rfl⟩ := h
  exact ⟨rfl, _, rfl, by simp⟩

/-- Renaming a receiver gives it the next value and keeps the rest of it. -/
theorem renameReceiver_fresh {values values' : List (ValueId × ValueId)} {r r' : Option Param}
    {opts : LowerOptions} {s s' : ComposerState}
    (h : renameReceiver values r opts s = .ok ((r', values'), s')) :
    Allocates r'.toList.length s s' ∧ Option.Rel Param.Revalued r r' ∧
      r'.toList.map (·.value) = List.range' s.module.values.size r'.toList.length := by
  cases r with
  | none =>
    cases h
    exact ⟨Allocates.refl s, .none, rfl⟩
  | some p =>
    obtain ⟨v, s₁, h₁, h⟩ := bind_ok h
    cases h
    obtain ⟨rfl, ha⟩ := allocates_newValue h₁
    exact ⟨ha, .some rfl, rfl⟩

/-- Renaming parameters gives each the next value as a clone takes it, and returns their
defaults in order. -/
theorem renameParams_fresh :
    ∀ {ps ps' : List Param} {defaults : List (Option Expr)} {values values' : List (ValueId × ValueId)}
      {opts : LowerOptions} {s s' : ComposerState},
      renameParams ps values opts s = .ok ((ps', defaults, values'), s') →
      Allocates ps.length s s' ∧ List.Forall₂ (fun p q => q = p.forClone q.value) ps ps' ∧
        ps'.map (·.value) = List.range' s.module.values.size ps.length ∧
        defaults = ps.map (·.default)
  | [], _, _, _, _, _, s, _, h => by
    cases h
    exact ⟨Allocates.refl s, .nil, rfl, rfl⟩
  | p :: ps, _, _, _, _, _, _, _, h => by
    rw [renameParams] at h
    obtain ⟨v, s₁, h₁, h⟩ := bind_ok h
    obtain ⟨⟨rest, defaults, values'⟩, s₂, h₂, h⟩ := bind_ok h
    cases h
    obtain ⟨rfl, ha₁⟩ := allocates_newValue h₁
    obtain ⟨ha₂, hrest, hvalues, rfl⟩ := renameParams_fresh h₂
    refine ⟨by rw [List.length_cons, Nat.add_comm]; exact ha₁.trans ha₂, .cons rfl hrest, ?_, rfl⟩
    rw [List.map_cons, hvalues, ha₁.values_size, List.length_cons, List.range'_succ]

/-- Allocating synthetic parameters gives each the next value. -/
theorem syntheticParams_fresh :
    ∀ {sps : List SyntheticParam} {ps : List Param} {opts : LowerOptions} {s s' : ComposerState},
      syntheticParams sps opts s = .ok (ps, s') →
      Allocates sps.length s s' ∧ List.Forall₂ (fun sp p => p = sp.param p.value) sps ps ∧
        ps.map (·.value) = List.range' s.module.values.size sps.length
  | [], _, _, s, _, h => by
    cases h
    exact ⟨Allocates.refl s, .nil, rfl⟩
  | sp :: sps, _, _, _, _, h => by
    unfold syntheticParams at h
    obtain ⟨v, s₁, h₁, h⟩ := bind_ok h
    obtain ⟨rest, s₂, h₂, h⟩ := bind_ok h
    cases h
    obtain ⟨rfl, ha₁⟩ := allocates_newValue h₁
    obtain ⟨ha₂, hrest, hvalues⟩ := syntheticParams_fresh h₂
    refine ⟨by rw [List.length_cons, Nat.add_comm]; exact ha₁.trans ha₂,
      .cons (by cases sp <;> rfl) hrest, ?_⟩
    rw [List.map_cons, hvalues, ha₁.values_size, List.length_cons, List.range'_succ]

/-- Values allocated in two runs, one after the other, are numbered on. -/
theorem values_append {xs ys : List Param} {a : Nat}
    (hx : xs.map (·.value) = List.range' a xs.length)
    (hy : ys.map (·.value) = List.range' (a + xs.length) ys.length) :
    (xs ++ ys).map (·.value) = List.range' a (xs ++ ys).length := by
  rw [List.map_append, hx, hy, List.length_append, List.range'_append_1]

/-! ## Allocating the clone -/

/-- Appending a declaration that holds no declaration and has a composer parameter, recorded as
lowered and as a clone, is framed. -/
theorem framed_alloc (s : ComposerState) {x : Decl} (old : DeclId) (hx : x.hasComposer = true)
    (hnested : x.nestedFns = []) :
    Framed s { s with module := (s.module.allocDecl x).1, lowered := s.module.decls.size :: s.lowered,
                      clones := (old, s.module.decls.size) :: s.clones,
                      declarations := s.declarations + 1 } := by
  -- a declaration of the arena reads as before
  have hold : ∀ d < s.module.decls.size, (s.module.allocDecl x).1.decl d = s.module.decl d :=
    fun d hd => by rw [Module.decl_allocDecl, if_neg (Nat.ne_of_lt hd)]
  have hnew : (s.module.allocDecl x).1.decl s.module.decls.size = x := by
    rw [Module.decl_allocDecl, if_pos rfl]
  refine ⟨by simp, fun d hd => by rw [hold d hd], fun x' hx' y h => ?_, rfl, rfl, fun hr => ?_,
    fun hf x' y h => ?_, rfl, List.suffix_cons _ _, fun z y h => ?_⟩
  · rcases Module.nests_allocDecl h with ⟨rfl, -⟩ | h
    · exact absurd hx' (Nat.lt_irrefl _)
    · exact h
  · -- the clone has a composer parameter, and what was recorded reads as before
    have hreads : ∀ d, (s.module.decl d).hasComposer = true →
        ((s.module.allocDecl x).1.decl d).hasComposer = true := fun d hc =>
      (hold d (Module.lt_size_of_hasComposer hc)).symm ▸ hc
    refine ⟨fun d hd => ?_, fun p hp => ?_⟩
    · rcases List.mem_cons.1 hd with rfl | hd
      · show ((s.module.allocDecl x).1.decl _).hasComposer = true
        rw [hnew]
        exact hx
      · exact hreads d (hr.lowered d hd)
    · rcases List.mem_cons.1 hp with rfl | hp
      · show ((s.module.allocDecl x).1.decl _).hasComposer = true
        rw [hnew]
        exact hx
      · exact hreads p.2 (hr.clones p hp)
  · rcases Module.nests_allocDecl h with ⟨-, hy⟩ | h
    · rw [hnested] at hy
      cases hy
    · simpa using Nat.lt_succ_of_lt (hf x' y h)
  · -- the clone holds nothing yet
    rcases Module.nests_allocDecl h with ⟨-, hy⟩ | h
    · rw [hnested] at hy
      cases hy
    · exact ⟨z, h⟩

/-- Allocating the clone of `old`: it is appended at the end of the arena with its receivers
and parameters renamed to the next values, its synthetic parameters after them, and no
overrides, defaults or body; the defaults to put back are the declaration's own, none for the
synthetic parameters. -/
theorem allocClone_fresh {old : DeclId} {opts : LowerOptions} {s s' : ComposerState}
    {cl : FreshClone} (h : allocClone old opts s = .ok (cl, s')) :
    Framed s s' ∧ cl.new = s.module.decls.size ∧ cl.source = s.module.decl old ∧
      (s'.module.decl cl.new).hasComposer = true ∧
      ∃ (dispatch extension : Option Param) (params synthetic : List Param),
        s'.module.decl cl.new =
          { cl.source with dispatch, extension, params := params ++ synthetic, overrides := [],
                           body := none, annotations := cl.source.annotations ++ linkNameFor cl.source } ∧
        Option.Rel Param.Revalued cl.source.dispatch dispatch ∧
        Option.Rel Param.Revalued cl.source.extension extension ∧
        List.Forall₂ (fun p q => q = p.forClone q.value) cl.source.params params ∧
        List.Forall₂ (fun sp p => p = sp.param p.value)
          (Synthetic.params cl.source.params.length cl.source.receiverSlots
            (requiresDefaultMask s.module (s.module.decls.size + 1) old)) synthetic ∧
        (s'.module.decl cl.new).explicitParams.map (·.value) =
          List.range' s.module.values.size (s'.module.decl cl.new).explicitParams.length ∧
        cl.defaults = cl.source.params.map (·.default) ++ synthetic.map fun _ => none := by
  obtain ⟨-, dispatch, values₁, s₁, extension, values₂, s₂, params, defaults, values₃, s₃,
    synthetic, s₄, h₁, h₂, h₃, h₄, rfl, rfl⟩ := allocClone_eq_ok h
  -- the renamings and the synthetic parameters take the next values in turn
  obtain ⟨ha₁, hdispatch, hv₁⟩ := renameReceiver_fresh h₁
  obtain ⟨ha₂, hextension, hv₂⟩ := renameReceiver_fresh h₂
  obtain ⟨ha₃, hparams, hv₃, rfl⟩ := renameParams_fresh h₃
  obtain ⟨ha₄, hsynth, hv₄⟩ := syntheticParams_fresh h₄
  have hlen : params.length = (s.module.decl old).params.length := hparams.length_eq.symm
  have hs₂ : s₂.module.values.size =
      s.module.values.size + (dispatch.toList ++ extension.toList).length := by
    rw [ha₂.values_size, ha₁.values_size, List.length_append, Nat.add_assoc]
  have hs₃ : s₃.module.values.size =
      s.module.values.size + (dispatch.toList ++ extension.toList).length + params.length := by
    rw [ha₃.values_size, hs₂, hlen]
  have hvalues : (dispatch.toList ++ extension.toList ++ (params ++ synthetic)).map (·.value) =
      List.range' s.module.values.size
        (dispatch.toList ++ extension.toList ++ (params ++ synthetic)).length := by
    refine values_append (values_append hv₁ (ha₁.values_size ▸ hv₂)) (values_append ?_ ?_)
    · rw [← hs₂, hlen]
      exact hv₃
    · rw [← hs₃, ← hsynth.length_eq]
      exact hv₄
  have ha := ha₁.trans (ha₂.trans (ha₃.trans ha₄))
  have hdecls : s₄.module.decls = s.module.decls := by
    obtain ⟨vs, hs₄, -⟩ := ha
    rw [hs₄]
  -- the clone has a composer parameter, the first synthetic one, and holds nothing
  have hcomposer : (params ++ synthetic).any (·.origin == .composer) = true := by
    rw [Synthetic.params] at hsynth
    obtain ⟨p, ps, rfl, hp⟩ : ∃ p ps, synthetic = p :: ps ∧ p.origin = .composer := by
      cases hsynth with
      | cons hp _ => exact ⟨_, _, rfl, congrArg Param.origin hp⟩
    exact List.any_eq_true.2 ⟨p, List.mem_append_right _ List.mem_cons_self, by simp [hp]⟩
  have hnone : ∀ p ∈ params ++ synthetic, p.default = none := by
    intro p hp
    rcases List.mem_append.1 hp with hp | hp
    · exact Param.default_eq_none_of_forall₂ (fun _ _ => rfl) hparams p hp
    · exact Param.default_eq_none_of_forall₂ (fun _ _ => rfl) hsynth p hp
  -- the clone is appended after the values are allocated
  have hclone := Module.decl_allocDecl s₄.module
    { s.module.decl old with dispatch, extension, params := params ++ synthetic, overrides := [],
                             body := none,
                             annotations := (s.module.decl old).annotations ++
                               linkNameFor (s.module.decl old) } s₄.module.decls.size
  rw [if_pos rfl] at hclone
  dsimp only at hclone ⊢
  refine ⟨ha.framed.trans (framed_alloc _ old (by exact hcomposer) ?_), by rw [hdecls], rfl,
    by rw [hclone]; exact hcomposer,
    dispatch, extension, params, synthetic, hclone, hdispatch, hextension, hparams,
    by rw [← hlen]; exact hsynth, by rw [hclone]; exact hvalues, rfl⟩
  have hfilter : (params ++ synthetic).filterMap (·.default) = [] :=
    List.filterMap_eq_nil_iff.2 fun p hp => by simp [hnone p hp]
  simp [Decl.nestedFns, hfilter]

/-- Allocating a clone appends it to the arena and records it as the clone of `old` and as
lowered, counting one more declaration. -/
theorem allocClone_records {old : DeclId} {opts : LowerOptions} {s s' : ComposerState}
    {cl : FreshClone} (h : allocClone old opts s = .ok (cl, s')) :
    s'.clones = (old, cl.new) :: s.clones ∧ s'.lowered = cl.new :: s.lowered ∧
      s'.declarations = s.declarations + 1 ∧ s'.module.decls.size = s.module.decls.size + 1 := by
  have hnew := (allocClone_fresh h).2.1
  obtain ⟨-, dispatch, values₁, s₁, extension, values₂, s₂, params, defaults, values₃, s₃,
    synthetic, s₄, h₁, h₂, h₃, h₄, rfl, rfl⟩ := allocClone_eq_ok h
  -- the renamings before the append allocate values only
  obtain ⟨vs, rfl, -⟩ := (renameReceiver_fresh h₁).1.trans ((renameReceiver_fresh h₂).1.trans
    ((renameParams_fresh h₃).1.trans (syntheticParams_fresh h₄).1))
  rw [hnew]
  exact ⟨rfl, rfl, rfl, by simp⟩

theorem map_default_putDefaults :
    ∀ (ps : List Param) (ds : List (Option Expr)), ds.length = ps.length →
      (Module.putDefaults ps ds).map (·.default) = ds
  | [], [], _ => rfl
  | p :: ps, d :: ds, h => by
    simp only [Module.putDefaults, List.map_cons, map_default_putDefaults ps ds (by simpa using h)]
  | [], _ :: _, h => absurd h (by simp)
  | _ :: _, [], h => absurd h (by simp)

/-- Defaults put back into a declaration of the arena, one for each parameter, read back as
they were put. -/
theorem map_default_putExprs {m : Module} {d : DeclId} {xs : DeclExprs} (hd : d < m.decls.size)
    (hlen : xs.defaults.length = (m.decl d).params.length) :
    ((m.putExprs d xs).decl d).params.map (·.default) = xs.defaults := by
  rw [Module.putExprs, Module.decl_modifyDecl, if_pos ⟨rfl, hd⟩]
  exact map_default_putDefaults _ _ hlen

/-! ## The walks of a clone -/

/-- What the walks of the pass keep, at one fuel: each is framed; the lowered form of a
declaration of the arena needs no clone, once the records are registered; a clone has a
composer parameter; a lowered call holds no declaration the call did not; and a nested function
lowered in place keeps its index. -/
structure FrameWalks (fuel : Nat) : Prop where
  lowerDecl : ∀ d, Framing (fun _ => True) (lowerDecl fuel d) fun r s => Registered s →
    d < s.module.decls.size → r < s.module.decls.size ∧ (s.module.decl r).needsClone = false
  clone : ∀ d, Framing (fun _ => True) (cloneWithComposer fuel d)
    fun r s => (s.module.decl r).hasComposer = true
  lowerCall : ∀ k c, Framing (fun _ => True) (lowerCall fuel k c) fun c' _ =>
    ∀ y ∈ (Expr.ofCall c' Ty.unit).nestedFns, y ∈ (Expr.ofCall c Ty.unit).nestedFns
  bodyNested : ∀ fr d, Framing (fun _ => True) (bodyNested fuel fr d) fun r _ => r = d

/-- What the walk of a clone leaves: a framed state recording the clone as the clone of `old`,
and the clone as allocated but for the overrides set on it, its defaults and its body, with one
default put back for each parameter, present exactly where the declaration it replaces had
one. -/
theorem cloneWithComposer_framed {fuel : Nat} (ih : FrameWalks fuel) {old new : DeclId}
    {opts : LowerOptions} {s s' : ComposerState}
    (h : cloneWithComposer (fuel + 1) old opts s = .ok (new, s')) :
    Framed s s' ∧ (old, new) ∈ s'.clones ∧
      ∃ cl s₁ overrides, allocClone old opts s = .ok (cl, s₁) ∧ new = cl.new ∧
      (s'.module.decl new).core = { (s₁.module.decl new).core with overrides } ∧
      (s'.module.decl new).params.map (·.default.isSome) = cl.defaults.map Option.isSome := by
  obtain ⟨cl, s₆, overrides, s₇, s₈, defaults', s₉, body, s₁₀, u, h₆, h₇, h₈, h₉, h₁₀, h₁₃, rfl⟩ :=
    cloneWithComposer_succ_eq_ok h
  obtain ⟨hg₆, hnew, hsource, hcomposer, dispatch, extension, params, synthetic, hclone, -, -,
    hparams, -, -, hdefaults⟩ := allocClone_fresh h₆
  have hlt₆ : cl.new < s₆.module.decls.size := Module.lt_size_of_hasComposer hcomposer
  -- the overrides are lowered, then set on the clone, which lies past the start's arena
  obtain ⟨-, hg₇, -⟩ := StepSemantics.Triple.mapM (Q := fun _ _ _ => True)
    (fun _ _ _ _ _ _ => trivial) (fun _ _ _ _ => trivial) _
    (fun a _ => (ih.lowerDecl a opts).mono (fun _ _ => trivial) fun _ _ _ => trivial)
    s₆ overrides s₇ h₇ trivial trivial
  have hlt₇ : cl.new < s₇.module.decls.size := Nat.lt_of_lt_of_le hlt₆ hg₇.size_le
  have hg₈ : Framed s s₈ := modifyModule_ok h₈ ▸
    framed_modifyDecl (hg₆.trans hg₇) (Nat.le_of_eq hnew.symm) (fun _ => rfl) (fun _ => rfl)
  have hcore₈ : (s₈.module.decl cl.new).core = { (s₆.module.decl cl.new).core with overrides } := by
    rw [modifyModule_ok h₈]
    dsimp only
    rw [Module.decl_modifyDecl, if_pos ⟨rfl, hlt₇⟩, ← hg₇.core_eq cl.new hlt₆]
    rfl
  -- the defaults and the body are lowered to expressions holding only what the declaration held
  let frame : BodyFrame :=
    { old, new := cl.new, values := cl.values, composer := cl.composer, nested := false }
  have hwalk : ∀ e ∈ (s.module.decl old).owned, Framing (fun _ => True)
      (rewriteExpr (lowerCall fuel cl.composer) (bodyNested fuel frame) frame e) fun e' _ =>
        ∀ y ∈ e'.nestedFns, s.module.Nests old y := fun e he =>
    (framing_rewriteExpr (ih.lowerCall cl.composer) (ih.bodyNested frame) frame e).mono'
      fun y hy => Decl.mem_nestedFns.2 ⟨e, he, hy⟩
  have hsrc : ∀ o ∈ cl.defaults, ∀ e ∈ o, e ∈ (s.module.decl old).owned := by
    intro o ho e he
    rw [hdefaults, List.mem_append, hsource] at ho
    rcases ho with ho | ho
    · obtain ⟨p, hp, rfl⟩ := List.mem_map.1 ho
      exact List.mem_append_left _ (List.mem_filterMap.2 ⟨p, hp, he⟩)
    · obtain ⟨_, _, rfl⟩ := List.mem_map.1 ho
      cases he
  obtain ⟨-, hg₉, hdefs⟩ := StepSemantics.Triple.mapM
    (Q := fun (o o' : Option Expr) _ =>
      o'.isSome = o.isSome ∧ ∀ e ∈ o', ∀ y ∈ e.nestedFns, s.module.Nests old y)
    (fun _ _ _ _ _ h => h) (fun _ _ _ h => h) _ (fun o ho =>
      (StepSemantics.Triple.option o fun e he => hwalk e (hsrc o ho e he) opts).mono
        (fun _ h => h) fun _ _ h => h) s₈ defaults' s₉ h₉ trivial trivial
  obtain ⟨-, hg₁₀, -, hbody⟩ := StepSemantics.Triple.option _ (fun e he =>
    hwalk e (hsource ▸ List.mem_append_right _ (Option.mem_toList.2 he)) opts)
    s₉ body s₁₀ h₁₀ trivial trivial
  have hg₁₀ : Framed s₈ s₁₀ := hg₉.trans hg₁₀
  have hlt₈ : cl.new < s₈.module.decls.size := Nat.lt_of_lt_of_le hlt₇ (by
    rw [modifyModule_ok h₈]
    exact Nat.le_of_eq (Module.decls_size_modifyDecl _ _ _).symm)
  have hdefs' : ∀ o ∈ defaults', ∀ e ∈ o, ∀ y ∈ e.nestedFns, s.module.Nests old y :=
    forall_mem_of_forall₂ (hdefs.imp fun _ _ h => h.2)
  -- the lowered defaults and body, with the prologue, are put into the clone
  -- the clone stays recorded: the records only grow after the allocation
  have hrec : (old, cl.new) ∈ s₁₀.clones := by
    have h₆' : (old, cl.new) ∈ s₆.clones := by
      rw [(allocClone_records h₆).1]
      exact List.mem_cons_self
    have h₈' : s₈.clones = s₇.clones := by rw [modifyModule_ok h₈]
    exact hg₁₀.clones_sub.subset (h₈' ▸ hg₇.clones_sub.subset h₆')
  rw [modifyModule_ok h₁₃]
  refine ⟨framed_putExprs (hg₈.trans hg₁₀) fun y hy => ?_, hrec, cl, s₆, overrides, h₆, rfl, ?_,
    ?_⟩
  · have hheld : s.module.Nests old y := by
      rcases hy with ⟨o, ho, e, he, hy⟩ | ⟨e, he, hy⟩
      · exact hdefs' o ho e he y hy
      · obtain ⟨b, hb, rfl⟩ := Option.map_eq_some_iff.1 he
        split at hy
        · exact nestedFns_defaultPrologue _ _ hdefs' (hbody b hb) y hy
        · exact hbody b hb y hy
    exact ⟨fun h => absurd (hnew ▸ h) (Nat.lt_irrefl _), ⟨old, hheld⟩, fun hf => hf old y hheld⟩
  · rw [core_putExprs, hg₁₀.core_eq cl.new hlt₈, hcore₈]
  · have hlen : defaults'.length = (s₁₀.module.decl cl.new).params.length := by
      have hp := congrArg (fun x : Decl => x.params.length)
        ((hg₁₀.core_eq cl.new hlt₈).trans hcore₈)
      simp only [Decl.core, List.length_map] at hp
      rw [hp, hclone, ← hdefs.length_eq, hdefaults, List.length_append, List.length_append,
        List.length_map, List.length_map, hparams.length_eq]
    rw [show (fun p : Param => p.default.isSome) = Option.isSome ∘ (·.default) from rfl,
      ← List.map_map, map_default_putExprs (Nat.lt_of_lt_of_le hlt₈ hg₁₀.size_le) hlen]
    exact map_eq_of_forall₂ (hdefs.imp fun _ _ h => h.1)

theorem framing_clone {fuel : Nat} (ih : FrameWalks fuel) (old : DeclId) :
    Framing (fun _ => True) (cloneWithComposer (fuel + 1) old)
      fun r s => (s.module.decl r).hasComposer = true := by
  intro opts s r s' h _ _
  obtain ⟨hg, -, cl, s₁, overrides, h₁, rfl, hcore, -⟩ := cloneWithComposer_framed ih h
  refine ⟨trivial, hg, ?_⟩
  show (s'.module.decl cl.new).hasComposer = true
  -- whether there is a composer parameter is read off the core, which the overrides leave alone
  rw [← Decl.hasComposer_core, hcore]
  exact (Decl.hasComposer_core _).trans (allocClone_fresh h₁).2.2.2.1

/-- Every walk is framed at every fuel: at zero fuel each fails as soon as it would step to
another declaration, and at `fuel + 1` each is proved from the walks at `fuel`. -/
theorem frameWalks : ∀ fuel, FrameWalks fuel
  | 0 => ⟨framing_lowerDecl fun _ h => absurd h (Nat.succ_ne_zero _).symm,
      fun _ => by rw [cloneWithComposer]; exact framing_throw _,
      fun _ _ => by rw [lowerCall]; exact framing_throw _,
      fun _ _ => by rw [bodyNested]; exact framing_throw _⟩
  | fuel + 1 =>
    have ih := frameWalks fuel
    ⟨framing_lowerDecl fun _ h => Nat.succ.inj h ▸ ih.clone, framing_clone ih,
      framing_lowerCall fun d opts => (ih.lowerDecl d opts).mono (fun _ h => h) fun _ _ _ => trivial,
      framing_bodyNested ih.lowerCall ih.bodyNested⟩

end Composer

/-! ## The clone as the walk leaves it -/

open Composer in
/-- The clone a walk makes of `old` is appended at the end of the arena and is `old` cloned:
its header and annotations, receivers, real and synthetic parameters are as `Decl.ClonedFrom`
says, with the values allocated from the first value free before the walk, and synthetic
parameters with default masks exactly when `old` needs them in the module the walk started
from. -/
theorem cloneWithComposer_clonedFrom {fuel : Nat} {old new : DeclId} {opts : LowerOptions}
    {s s' : ComposerState} (h : cloneWithComposer fuel old opts s = .ok (new, s')) :
    new = s.module.decls.size ∧
      (s'.module.decl new).ClonedFrom (s.module.decl old) s.module.values.size
        (requiresDefaultMask s.module (s.module.decls.size + 1) old) := by
  cases fuel with
  | zero =>
    rw [cloneWithComposer] at h
    exact absurd h throw_ne_ok
  | succ fuel =>
  obtain ⟨-, -, cl, s₁, overrides, h₁, rfl, hcore, hdefaults⟩ :=
    cloneWithComposer_framed (frameWalks fuel) h
  obtain ⟨-, hnew, hsource, -, dispatch, extension, params, synthetic, hclone, hdispatch, hextension,
    hparams, hsynth, hfresh, hcl⟩ := allocClone_fresh h₁
  rw [hsource] at hparams hsynth hcl hclone hdispatch hextension
  have hvalues : (s'.module.decl cl.new).explicitParams.map (·.value) =
      (s₁.module.decl cl.new).explicitParams.map (·.value) := by
    rw [← Decl.explicitParams_core, hcore]
    exact Decl.explicitParams_core (s₁.module.decl cl.new)
  rw [hclone] at hcore
  have hlen : params.length = (s.module.decl old).params.length := hparams.length_eq.symm
  -- the parameters of the clone, their defaults forgotten, are those allocated
  have hundef : (s'.module.decl cl.new).params.map Param.undefaulted = params ++ synthetic := by
    have hp := congrArg Decl.params hcore
    simp only [Decl.core, List.map_append] at hp
    rw [hp, Param.map_undefaulted_of_default (Param.default_eq_none_of_forall₂ (fun _ _ => rfl) hparams),
      Param.map_undefaulted_of_default (Param.default_eq_none_of_forall₂ (fun _ _ => rfl) hsynth)]
  have hsome : (s'.module.decl cl.new).params.map (·.default.isSome) =
      (s.module.decl old).params.map (·.default.isSome) ++ synthetic.map fun _ => false := by
    rw [hdefaults, hcl]
    simp [Function.comp_def]
  refine ⟨hnew, ⟨?_, congrArg Decl.annotations hcore, ?_, ?_, ?_, ?_, ?_, ?_⟩⟩
  · show (s'.module.decl cl.new).core.header = _
    rw [hcore]
    rfl
  · rw [show (s'.module.decl cl.new).dispatch = dispatch from congrArg Decl.dispatch hcore]
    exact hdispatch
  · rw [show (s'.module.decl cl.new).extension = extension from congrArg Decl.extension hcore]
    exact hextension
  · -- the real parameters are the first ones, each as a clone takes it
    have htake : ((s'.module.decl cl.new).params.take (s.module.decl old).params.length).map
        Param.undefaulted = params := by
      rw [List.map_take, hundef, List.take_left' hlen]
    have hreal := hparams
    rw [← htake] at hreal
    exact List.forall₂_map_right_iff.1 hreal
  · rw [List.map_take, hsome, List.take_left' (List.length_map _)]
  · -- the synthetic parameters follow, with no defaults
    rw [Param.drop_eq_of_map_undefaulted hundef hlen
      (Param.default_eq_none_of_drop hsome (List.length_map _))]
    exact hlen ▸ hsynth
  · have hlength := congrArg List.length hvalues
    simp only [List.length_map] at hlength
    rw [hvalues, hlength]
    exact hfresh

/-- `G` takes one parameter with a default and one without. -/
def defaultedModule : Module :=
  { name := "app",
    decls := #[
      { name := "G", kind := .function, parent := .container 0, annotations := [.composable],
        params := [{ value := 0, name := "x", ty := Ty.int, default := some (Expr.intLit 1) },
          { value := 1, name := "y", ty := Ty.int }],
        body := some (.block [] Ty.unit) }],
    containers := #[{ kind := .file "p", members := [0] }],
    files := [0], values := #["x", "y"] }

theorem defaultedModule_clonedFrom :
    ∃ new s', Composer.cloneWithComposer 3 0 {} { module := defaultedModule } = .ok (new, s') ∧
      new = 1 ∧ (s'.module.decl new).ClonedFrom (defaultedModule.decl 0) 2
        (Composer.requiresDefaultMask defaultedModule 2 0) := by
  have hclone : (match Composer.cloneWithComposer 3 0 {} { module := defaultedModule } with
      | .ok _ => true
      | .error _ => false) = true := by
    decide +kernel
  cases hr : Composer.cloneWithComposer 3 0 {} { module := defaultedModule } with
  | error e => rw [hr] at hclone; cases hclone
  | ok r =>
  obtain ⟨new, s'⟩ := r
  exact ⟨new, s', rfl, cloneWithComposer_clonedFrom hr⟩

end ComposeLowering
