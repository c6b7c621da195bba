import ComposeLowering.Lowering.Composer
import ComposeLowering.Proofs.Safe

/-!
# Running a step of the composer pass

A step of the transformer reads the options and changes the state, or stops with an error.
This file gives each basic step its equation when it is run on given options and a given
state, the inversion of a sequence of two steps, and the one relation that every step of the
pass keeps between the state it starts in and the state it ends in.

## Growth

`Grows s s'` says that the arena only got longer, that every declaration already in it kept the
origins of its parameters, its number of receivers and its kind, that every recorded clone is
still recorded, and that every declaration lowered in
`s` is still lowered in `s'`. The facts the calling convention rests on read nothing else of a
declaration (how many parameters a callee has, which of them are synthetic), so they survive
every later step once they hold.

## Hoare triples

`Keeps I P x Q` is the triple of `ComposeLowering.Proofs.Triple` for the transformer, for every
choice of options, with growth as the relation between start and end: run from a state
satisfying `I` and the precondition `P`, the step `x`, when it succeeds, ends in a state that
satisfies `I`, has grown from the start, and satisfies `Q` with the result. Its rules are the
general ones read at the transformer, so the proofs about the recursive walks of the pass never
unfold a bind.
-/

namespace ComposeLowering

/-- What the calling convention reads of a declaration: its parameters apart from their
defaults, in order, its number of receivers, and its kind. -/
def Decl.signatureShape (d : Decl) : List Param × Nat × DeclKind :=
  (d.params.map Param.undefaulted, d.receiverSlots, d.kind)

/-- Declarations of one shape have parameters of the same origins. -/
theorem Decl.map_origin_eq_of_shape {x y : Decl} (h : y.signatureShape = x.signatureShape) :
    y.params.map (·.origin) = x.params.map (·.origin) := by
  have := congrArg (fun sh => sh.1.map Param.origin) h
  simpa [Decl.signatureShape, Param.undefaulted, Function.comp_def] using this

/-- The values of a declaration's default masks, in order. -/
def Decl.maskWords (d : Decl) : List ValueId :=
  (d.params.filter (·.origin == .defaultMask)).map (·.value)

/-- Declarations of one shape have the same default masks. -/
theorem Decl.maskWords_eq_of_shape {x y : Decl} (h : y.signatureShape = x.signatureShape) :
    y.maskWords = x.maskWords := by
  have := congrArg (fun sh => (sh.1.filter (·.origin == .defaultMask)).map (·.value)) h
  simpa [Decl.signatureShape, Param.undefaulted, List.filter_map, Function.comp_def,
    Decl.maskWords] using this

namespace Composer

variable {α β : Type}

/-! ## Running steps -/

@[simp] theorem run_pure (a : α) (opts : LowerOptions) (s : ComposerState) :
    (pure a : M α) opts s = .ok (a, s) := rfl

@[simp] theorem run_get (opts : LowerOptions) (s : ComposerState) :
    (get : M ComposerState) opts s = .ok (s, s) := rfl

@[simp] theorem run_set (t : ComposerState) (opts : LowerOptions) (s : ComposerState) :
    (set t : M Unit) opts s = .ok ((), t) := rfl

@[simp] theorem run_read (opts : LowerOptions) (s : ComposerState) :
    (read : M LowerOptions) opts s = .ok (opts, s) := rfl

@[simp] theorem run_throw (e : LowerError) (opts : LowerOptions) (s : ComposerState) :
    (throw e : M α) opts s = .error e := rfl

@[simp] theorem run_getModule (opts : LowerOptions) (s : ComposerState) :
    getModule opts s = .ok (s.module, s) := rfl

@[simp] theorem run_modifyModule (f : Module → Module) (opts : LowerOptions) (s : ComposerState) :
    modifyModule f opts s = .ok ((), { s with module := f s.module }) := rfl

@[simp] theorem run_newValue (name : String) (opts : LowerOptions) (s : ComposerState) :
    newValue name opts s =
      .ok (s.module.values.size, { s with module := (s.module.newValue name).1 }) := rfl

theorem modifyModule_ok {f : Module → Module} {opts : LowerOptions} {s s' : ComposerState}
    {u : Unit} (h : modifyModule f opts s = .ok (u, s')) : s' = { s with module := f s.module } := by
  cases h
  rfl

theorem run_bind (x : M α) (f : α → M β) (opts : LowerOptions) (s : ComposerState) :
    (x >>= f) opts s = (x opts s).bind fun p => f p.1 opts p.2 := rfl

/-- A sequence that succeeds ran its first step to success and its second from there. -/
theorem bind_ok {x : M α} {f : α → M β} {opts : LowerOptions} {s s'' : ComposerState} {b : β}
    (h : (x >>= f) opts s = .ok (b, s'')) :
    ∃ a s', x opts s = .ok (a, s') ∧ f a opts s' = .ok (b, s'') := by
  rw [run_bind] at h
  cases hx : x opts s with
  | error e => rw [hx] at h; cases h
  | ok p => rw [hx] at h; exact ⟨p.1, p.2, rfl, h⟩

theorem bind_eq_ok_iff {x : M α} {f : α → M β} {opts : LowerOptions} {s s'' : ComposerState}
    {b : β} : (x >>= f) opts s = .ok (b, s'') ↔
      ∃ a s', x opts s = .ok (a, s') ∧ f a opts s' = .ok (b, s'') := by
  refine ⟨bind_ok, ?_⟩
  rintro ⟨a, s', h₁, h₂⟩
  rw [run_bind, h₁]
  exact h₂

theorem liftFault_ok {x : Except Fault α} {opts : LowerOptions} {s s' : ComposerState} {a : α}
    (h : liftFault x opts s = .ok (a, s')) : x = .ok a ∧ s' = s := by
  cases x with
  | error f => cases h
  | ok b => cases h; exact ⟨rfl, rfl⟩

/-- What finding the target of a call can do. For a function value, an unmarked callee or a
decoy it keeps the state, and a target it finds is an invoke. For a callee marked composable it
lowers the callee, and a target it finds is the lowered form, recorded as lowered, with its
parameters as slots, its receivers, and default masks wanted. -/
theorem targetShape_eq_ok {lower : DeclId → M DeclId} {c : Call} {opts : LowerOptions}
    {s s' : ComposerState} {sh : Option (CallTarget × Nat × Nat × Bool)}
    (h : targetShape lower c opts s = .ok (sh, s')) :
    (s' = s ∧ ∀ tgt o r hd, sh = some (tgt, o, r, hd) →
        ∃ arity, c.target = .invoke arity ∧ tgt = .invoke o) ∨
    ∃ t owner, c.target = .decl t ∧ (s.module.decl t).isMarkedComposable = true ∧
      lower t opts s = .ok (owner, s') ∧
      ∀ tgt o r hd, sh = some (tgt, o, r, hd) → owner ∈ s'.lowered ∧ tgt = .decl owner ∧
        o = (s'.module.decl owner).params.length ∧ r = (s'.module.decl owner).receiverSlots ∧
        hd = true := by
  unfold targetShape at h
  cases htarget : c.target with
  | invoke arity =>
    rw [htarget] at h
    dsimp only at h
    refine .inl ?_
    -- whether the function value is composable is read off its receiver's type
    split at h
    all_goals
      dsimp only at h
      split at h
      · rw [bind_eq_ok_iff] at h
        obtain ⟨slots, s₁, h₁, h⟩ := h
        obtain ⟨-, rfl⟩ := liftFault_ok h₁
        cases h
        exact ⟨rfl, by rintro _ _ _ _ ⟨⟩; exact ⟨arity, rfl, rfl⟩⟩
      · cases h
        exact ⟨rfl, by rintro _ _ _ _ ⟨⟩⟩
  | decl t =>
    rw [htarget] at h
    dsimp only at h
    obtain ⟨m, s₁, h₁, h⟩ := bind_ok h
    cases h₁
    split at h
    · cases h
      exact .inl ⟨rfl, by rintro _ _ _ _ ⟨⟩⟩
    rename_i hmarked
    obtain ⟨owner, s₂, h₂, h⟩ := bind_ok h
    obtain ⟨s₃, s₄, h₃, h⟩ := bind_ok h
    cases h₃
    refine .inr ⟨t, owner, rfl, by simpa using hmarked, ?_⟩
    split at h
    · cases h
      exact ⟨h₂, by rintro _ _ _ _ ⟨⟩⟩
    · rename_i hcontains
      cases h
      refine ⟨h₂, ?_⟩
      rintro _ _ _ _ ⟨⟩
      exact ⟨by simpa using hcontains, rfl, rfl, rfl, rfl⟩
  | decoy =>
    rw [htarget] at h
    cases h
    exact .inl ⟨rfl, by rintro _ _ _ _ ⟨⟩⟩

/-- What cloning does at positive fuel when it succeeds: it allocates the clone, lowers the
overrides of the declaration and sets them on the clone, walks the defaults to put back and the
body in the clone's frame, and puts them into the clone, the body behind the default prologue
when the options ask for one and the clone has default masks. It answers the clone. -/
theorem cloneWithComposer_succ_eq_ok {fuel : Nat} {old new : DeclId} {opts : LowerOptions}
    {s s' : ComposerState} (h : cloneWithComposer (fuel + 1) old opts s = .ok (new, s')) :
    ∃ cl s₁ overrides s₂ s₃ defaults s₄ body s₅ u,
      let frame : BodyFrame :=
        { old, new := cl.new, values := cl.values, composer := cl.composer, nested := false }
      let walk := rewriteExpr (lowerCall fuel cl.composer) (bodyNested fuel frame) frame
      allocClone old opts s = .ok (cl, s₁) ∧
      cl.source.overrides.mapM (lowerDecl fuel) opts s₁ = .ok (overrides, s₂) ∧
      modifyModule (fun m => m.modifyDecl cl.new fun x => { x with overrides }) opts s₂ =
        .ok ((), s₃) ∧
      (cl.defaults.mapM fun (e : Option Expr) => e.mapM walk : M (List (Option Expr))) opts s₃ =
        .ok (defaults, s₄) ∧
      (cl.source.body.mapM walk : M (Option Expr)) opts s₄ = .ok (body, s₅) ∧
      modifyModule (fun m => m.putExprs cl.new ⟨defaults, body.map fun b =>
        if opts.defaultPrologue && !cl.words.isEmpty then
          defaultPrologue (s₅.module.decl cl.new) defaults cl.words b
        else b⟩) opts s₅ = .ok (u, s') ∧
      new = cl.new := by
  rw [cloneWithComposer] at h
  obtain ⟨cl, s₁, h₁, h⟩ := bind_ok h
  obtain ⟨overrides, s₂, h₂, h⟩ := bind_ok h
  obtain ⟨u, s₃, h₃, h⟩ := bind_ok h
  obtain ⟨defaults, s₄, h₄, h⟩ := bind_ok h
  obtain ⟨body, s₅, h₅, h⟩ := bind_ok h
  obtain ⟨opts', s₆, h₆, h⟩ := bind_ok h
  cases h₆
  obtain ⟨m, s₇, h₇, h⟩ := bind_ok h
  cases h₇
  obtain ⟨u', s₈, h₈, h⟩ := bind_ok h
  cases h
  exact ⟨cl, s₁, overrides, s₂, s₃, defaults, s₄, body, s₅, u', h₁, h₂, h₃, h₄, h₅, h₈, rfl⟩

/-! ## Growth -/

/-- How the state may change over a run of steps: the arena only gets longer, declarations
already in it keep their signature shape, and clones and lowered declarations stay recorded. -/
structure Grows (s s' : ComposerState) : Prop where
  size_le : s.module.decls.size ≤ s'.module.decls.size
  shape_eq : ∀ d < s.module.decls.size,
    (s'.module.decl d).signatureShape = (s.module.decl d).signatureShape
  lowered_sub : ∀ d ∈ s.lowered, d ∈ s'.lowered
  clones_sub : ∀ p ∈ s.clones, p ∈ s'.clones

theorem Grows.refl (s : ComposerState) : Grows s s :=
  ⟨Nat.le_refl _, fun _ _ => rfl, fun _ h => h, fun _ h => h⟩

theorem Grows.trans {s₁ s₂ s₃ : ComposerState} (h₁ : Grows s₁ s₂) (h₂ : Grows s₂ s₃) :
    Grows s₁ s₃ where
  size_le := Nat.le_trans h₁.size_le h₂.size_le
  shape_eq d hd := (h₂.shape_eq d (Nat.lt_of_lt_of_le hd h₁.size_le)).trans (h₁.shape_eq d hd)
  lowered_sub d hd := h₂.lowered_sub d (h₁.lowered_sub d hd)
  clones_sub p hp := h₂.clones_sub p (h₁.clones_sub p hp)

theorem Grows.length_params {s s' : ComposerState} (hg : Grows s s') {d : DeclId}
    (hd : d < s.module.decls.size) :
    (s'.module.decl d).params.length = (s.module.decl d).params.length := by
  have h := congrArg (fun sh => sh.1.length) (hg.shape_eq d hd)
  simpa [Decl.signatureShape] using h

/-! ## Hoare triples -/

/-- For given options, the transformer runs as a state monad over `Except`. -/
def sem (opts : LowerOptions) : StepSemantics M ComposerState LowerError where
  run x s := x opts s
  run_pure _ _ := rfl
  run_bind _ _ _ := rfl

/-- Growth as a preorder on the transformer's states. -/
def growth : Growth ComposerState := ⟨Grows, Grows.refl, Grows.trans⟩

/-- The step `x`, run from a state satisfying `I` and `P`, ends when it succeeds in a state
satisfying `I` that has grown from the start and satisfies `Q` with the result; for every
choice of options, this is the triple of `StepSemantics` for the transformer's run. -/
def Keeps (I P : ComposerState → Prop) (x : M α) (Q : α → ComposerState → Prop) : Prop :=
  ∀ opts s a s', x opts s = .ok (a, s') → I s → P s → I s' ∧ Grows s s' ∧ Q a s'

/-- A property of states that survives growth. -/
def Persists (P : ComposerState → Prop) : Prop :=
  ∀ s s', Grows s s' → P s → P s'

/-- A property of results that survives growth. -/
def Stable (Q : α → ComposerState → Prop) : Prop :=
  ∀ a, Persists (Q a)

variable {I P : ComposerState → Prop}

theorem Persists.growth (h : Persists P) : growth.Persists P := h

theorem Stable.growth {Q : α → ComposerState → Prop} (h : Stable Q) : growth.Stable Q := h

theorem Keeps.triple {x : M α} {Q : α → ComposerState → Prop} (h : Keeps I P x Q)
    (opts : LowerOptions) : (sem opts).Triple growth I P x Q :=
  h opts

theorem Keeps.of_triple {x : M α} {Q : α → ComposerState → Prop}
    (h : ∀ opts, (sem opts).Triple growth I P x Q) : Keeps I P x Q :=
  h

theorem Keeps.pure {Q : α → ComposerState → Prop} (a : α) (h : ∀ s, P s → Q a s) :
    Keeps I P (Pure.pure a : M α) Q :=
  Keeps.of_triple fun _ => StepSemantics.Triple.pure a h

/-- A step that fails keeps everything: it has no final state. -/
theorem Keeps.throw {Q : α → ComposerState → Prop} (e : LowerError) :
    Keeps I P (MonadExcept.throw e : M α) Q :=
  Keeps.of_triple fun _ => StepSemantics.Triple.of_fails fun _ _ _ h => nomatch h

theorem Keeps.bind {x : M α} {f : α → M β} {Q : α → ComposerState → Prop}
    {R : β → ComposerState → Prop} (hx : Keeps I P x Q) (hf : ∀ a, Keeps I (Q a) (f a) R) :
    Keeps I P (x >>= f) R :=
  Keeps.of_triple fun opts => (hx.triple opts).bind fun a => (hf a).triple opts

theorem Keeps.mono {x : M α} {P' : ComposerState → Prop} {Q Q' : α → ComposerState → Prop}
    (hx : Keeps I P x Q) (hP : ∀ s, P' s → P s) (hQ : ∀ a s, Q a s → Q' a s) :
    Keeps I P' x Q' :=
  Keeps.of_triple fun opts => (hx.triple opts).mono hP hQ

theorem Keeps.getModule : Keeps I P getModule fun _ s => P s := by
  intro opts s a s' h hI hP
  cases h
  exact ⟨hI, Grows.refl s, hP⟩

theorem Keeps.ite {x y : M α} {Q : α → ComposerState → Prop} (c : Prop) [Decidable c]
    (hx : Keeps I P x Q) (hy : Keeps I P y Q) : Keeps I P (if c then x else y) Q :=
  Keeps.of_triple fun opts => StepSemantics.Triple.ite c (hx.triple opts) (hy.triple opts)

/-- A loop whose every iteration keeps the precondition keeps it. -/
theorem Keeps.forIn {β : Type} {f : α → β → M (ForInStep β)} (xs : List α) (b : β)
    (hf : ∀ a ∈ xs, ∀ b, Keeps I P (f a b) fun _ s => P s) :
    Keeps I P (ForIn.forIn xs b f) fun _ s => P s :=
  Keeps.of_triple fun opts =>
    StepSemantics.Triple.forIn xs b fun a ha b => (hf a ha b).triple opts

/-- A persistent precondition still holds at the end. -/
theorem Keeps.keep {x : M α} {Q : α → ComposerState → Prop} (hx : Keeps I P x Q)
    (hP : Persists P) : Keeps I P x fun a s => Q a s ∧ P s :=
  Keeps.of_triple fun opts => (hx.triple opts).keep hP.growth

/-- Mapping a step over a list, each from a persistent precondition: every result satisfies
the stable postcondition of its element's step. -/
theorem Keeps.mapM {f : α → M β} {Q : α → β → ComposerState → Prop}
    (hQ : ∀ a, Stable (Q a)) (hP : Persists P) (xs : List α)
    (hf : ∀ a ∈ xs, Keeps I P (f a) (Q a)) :
    Keeps I P (xs.mapM f) fun ys s => List.Forall₂ (fun a b => Q a b s) xs ys :=
  Keeps.of_triple fun opts =>
    StepSemantics.Triple.mapM (fun a => (hQ a).growth) hP.growth xs fun a ha =>
      (hf a ha).triple opts

/-- A step applied to an optional value keeps whether there is one. -/
theorem Keeps.option {f : α → M β} {R : β → ComposerState → Prop} (o : Option α)
    (hf : ∀ a ∈ o, Keeps I P (f a) R) :
    Keeps I P (o.mapM f) fun o' s => o'.isSome = o.isSome ∧ ∀ b ∈ o', R b s :=
  Keeps.of_triple fun opts => StepSemantics.Triple.option o fun a ha => (hf a ha).triple opts

/-- Rebuilding a node from its children: the node keeps its call shape, and every new child
satisfies the stable postcondition of the step that made it. -/
theorem Keeps.mapChildrenM {f : Expr → M Expr} {g : DeclId → M DeclId}
    {R : Expr → ComposerState → Prop} (e : Expr) (hR : Stable R) (hP : Persists P)
    (hf : ∀ c ∈ e.children, Keeps I P (f c) R) (hg : ∀ d, Keeps I P (g d) fun _ _ => True) :
    Keeps I P (e.mapChildrenM f g) fun e' s =>
      e'.callShape? = e.callShape? ∧ ∀ c' ∈ e'.children, R c' s :=
  Keeps.of_triple fun opts =>
    (StepSemantics.Triple.mapChildrenM_fnDecl e hR.growth hP.growth
      (fun c hc => (hf c hc).triple opts) fun d _ => (hg d).triple opts).mono
      (fun _ h => h) fun _ _ h => ⟨h.1, h.2.1⟩

end Composer

end ComposeLowering
