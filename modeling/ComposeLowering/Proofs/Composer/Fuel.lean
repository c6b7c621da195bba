import ComposeLowering.Proofs.Composer.Invariant
import ComposeLowering.Proofs.Safe

/-!
# The fuel of the composer pass

The walks of the composer pass call one another with one unit of fuel less at every step from one
declaration to another, and stop with the recursion limit when the fuel is gone. This file sets up
the argument that the fuel a run is given never runs out, and proves it for each basic step; the
walks themselves are in `ComposeLowering.Proofs.Composer.Termination`.

## The measure

Two facts bound a chain of walks that call one another.

* A clone is registered before its overrides, defaults and body are lowered, so a chain that
  reaches the same declaration again finds its clone and stops there. Between two clones of one
  chain the number of declarations still to clone (`unregistered`) drops.
* Between two clones, a chain only enters nested functions, each held by the one before, so the
  rank of the nesting drops at each of those steps.

For a module of `n` declarations whose nesting is ranked by `r`, with no rank above `n`, a chain
between two clones takes at most `n + 3` steps, and `need n s = (unregistered n s + 1) * (n + 3)`
is fuel enough from any state `s`. It only drops as the run goes on.

## What the argument keeps

`Bounded n r s` says that the first `n` declarations are the module's own and every later one is
a clone of one of them, lowered and recorded once; that every `fn` node holds a declaration of the
arena ranked, through its source, below its holder; and that the pass has cloned each declaration
at most once and counted each clone. `Advances s s'` is how a state changes over a run: the arena
only grows, what is lowered or cloned stays so, and no declaration of the arena changes source.

## Triples

`Finishes n r P x Q` is the triple of `ComposeLowering.Proofs.Safe` for the transformer, for every
choice of options, with `Bounded n r` as invariant and advancing as growth: the step never stops
with the recursion limit, and when it succeeds it ends as the triple says.
-/

namespace ComposeLowering

namespace Composer

variable {α β : Type}

/-! ## Sources and the measure -/

/-- The declaration a clone was made from; any other declaration is its own source. -/
def sourceOf (s : ComposerState) (d : DeclId) : DeclId :=
  ((s.clones.find? fun p => p.2 == d).map Prod.fst).getD d

-- `sourceOf s` is `copySource` read over the recorded clones
theorem sourceOf_eq_of_mem {s : ComposerState} {a b : DeclId}
    (hinj : ∀ a', (a', b) ∈ s.clones → a' = a) (h : (a, b) ∈ s.clones) : sourceOf s b = a :=
  copySource_eq_of_mem hinj h

theorem sourceOf_eq_self {s : ComposerState} {b : DeclId} (h : ∀ a, (a, b) ∉ s.clones) :
    sourceOf s b = b :=
  copySource_eq_self h

/-- The declarations among the first `n` that the pass may still clone: neither lowered nor
cloned yet. -/
def unregistered (n : Nat) (s : ComposerState) : Nat :=
  ((Finset.range n).filter fun d => d ∉ s.lowered ∧ s.clones.lookup d = none).card

/-- The fuel that a walk from one declaration to another needs at most, in a module of `n`
declarations: every declaration still to clone may open one more stretch of `n + 3` steps. -/
def need (n : Nat) (s : ComposerState) : Nat := (unregistered n s + 1) * (n + 3)

/-! ## Advancing -/

/-- How a state changes over a run of steps, as the termination argument reads it: the arena only
grows, lowered declarations and clones stay recorded, and every declaration of the arena keeps
its source. -/
structure Advances (s s' : ComposerState) : Prop where
  size_le : s.module.decls.size ≤ s'.module.decls.size
  lowered_sub : ∀ d ∈ s.lowered, d ∈ s'.lowered
  clones_sub : ∀ p ∈ s.clones, p ∈ s'.clones
  source_eq : ∀ d < s.module.decls.size, sourceOf s' d = sourceOf s d

theorem Advances.refl (s : ComposerState) : Advances s s :=
  ⟨Nat.le_refl _, fun _ h => h, fun _ h => h, fun _ _ => rfl⟩

theorem Advances.trans {s₁ s₂ s₃ : ComposerState} (h₁ : Advances s₁ s₂) (h₂ : Advances s₂ s₃) :
    Advances s₁ s₃ where
  size_le := Nat.le_trans h₁.size_le h₂.size_le
  lowered_sub d hd := h₂.lowered_sub d (h₁.lowered_sub d hd)
  clones_sub p hp := h₂.clones_sub p (h₁.clones_sub p hp)
  source_eq d hd := (h₂.source_eq d (Nat.lt_of_lt_of_le hd h₁.size_le)).trans (h₁.source_eq d hd)

/-- Advancing as a preorder on the transformer's states. -/
def advancing : Growth ComposerState := ⟨Advances, Advances.refl, Advances.trans⟩

variable {n : Nat} {r : DeclId → Nat} {s s' : ComposerState}

theorem Advances.lookup_eq_none (h : Advances s s') {d : DeclId}
    (hd : s'.clones.lookup d = none) : s.clones.lookup d = none :=
  List.lookup_eq_none_iff.2 fun p hp => List.lookup_eq_none_iff.1 hd p (h.clones_sub p hp)

/-- The declarations still to clone only get fewer. -/
theorem Advances.unregistered_le (h : Advances s s') : unregistered n s' ≤ unregistered n s := by
  unfold unregistered
  refine Finset.card_le_card fun d hd => ?_
  simp only [Finset.mem_filter] at hd ⊢
  exact ⟨hd.1, fun hl => hd.2.1 (h.lowered_sub d hl), h.lookup_eq_none hd.2.2⟩

theorem Advances.need_le (h : Advances s s') : need n s' ≤ need n s :=
  Nat.mul_le_mul_right _ (Nat.succ_le_succ h.unregistered_le)

/-! ## What the argument keeps -/

/-- What the termination argument keeps of a state of the pass over a module of `n`
declarations whose nesting `r` ranks. -/
structure Bounded (n : Nat) (r : DeclId → Nat) (s : ComposerState) : Prop where
  size_ge : n ≤ s.module.decls.size
  rank_le : ∀ d, r d ≤ n
  /-- Every declaration past the module's own is a lowered clone. -/
  new_clone : ∀ d, n ≤ d → d < s.module.decls.size → d ∈ s.lowered ∧ ∃ a, (a, d) ∈ s.clones
  /-- A clone is made from one of the module's own declarations, past them. -/
  clone_lt : ∀ a b, (a, b) ∈ s.clones → a < n ∧ n ≤ b ∧ b < s.module.decls.size
  clone_inj : ∀ a a' b, (a, b) ∈ s.clones → (a', b) ∈ s.clones → a = a'
  nested_lt : ∀ x y, s.module.Nests x y → y < s.module.decls.size
  /-- A nested declaration ranks, through its source, below its holder. -/
  ranked : ∀ x y, s.module.Nests x y → r (sourceOf s y) < r (sourceOf s x)
  /-- No declaration is cloned twice. -/
  keys_nodup : (s.clones.map Prod.fst).Nodup
  /-- Every clone is counted. -/
  declarations_eq : s.declarations = s.clones.length

namespace Bounded

variable (hI : Bounded n r s)
include hI

theorem sourceOf_clone {a b : DeclId} (h : (a, b) ∈ s.clones) : sourceOf s b = a :=
  sourceOf_eq_of_mem (fun a' h' => hI.clone_inj a' a b h' h) h

theorem sourceOf_of_lt {d : DeclId} (hd : d < n) : sourceOf s d = d :=
  sourceOf_eq_self fun a h => Nat.not_le.2 hd (hI.clone_lt a d h).2.1

/-- The ranks of the sources rank the nesting of the arena. -/
theorem nestRanking : s.module.NestRanking fun d => r (sourceOf s d) :=
  ⟨hI.nested_lt, hI.ranked, fun _ => Nat.le_trans (hI.rank_le _) hI.size_ge⟩

/-- Between two states the argument holds of, a step that only adds to the arena, the lowered
declarations and the clones advances: sources are read off the clones, which stay. -/
theorem advances {s' : ComposerState} (hI' : Bounded n r s')
    (hsize : s.module.decls.size ≤ s'.module.decls.size) (hl : ∀ d ∈ s.lowered, d ∈ s'.lowered)
    (hc : ∀ p ∈ s.clones, p ∈ s'.clones) : Advances s s' := by
  refine ⟨hsize, hl, hc, fun d hd => ?_⟩
  by_cases hn : d < n
  · rw [hI.sourceOf_of_lt hn, hI'.sourceOf_of_lt hn]
  · obtain ⟨-, a, ha⟩ := hI.new_clone d (Nat.le_of_not_lt hn) hd
    rw [hI.sourceOf_clone ha, hI'.sourceOf_clone (hc _ ha)]

end Bounded

/-! ## Triples -/

/-- The error a run that would not end stops with. -/
def IsLimit (e : LowerError) : Prop := e = .fault .recursionLimit

/-- The step `x`, run from a state that `Bounded n r` holds of and that satisfies `P`, never
stops with the recursion limit, and when it succeeds ends in a state that `Bounded n r` holds
of, that has advanced from the start and that satisfies `Q` with the result; for every choice of
options. -/
def Finishes (n : Nat) (r : DeclId → Nat) (P : ComposerState → Prop) (x : M α)
    (Q : α → ComposerState → Prop) : Prop :=
  ∀ opts, (sem opts).Safe IsLimit advancing (Bounded n r) P x Q

namespace Finishes

open StepSemantics

variable {P : ComposerState → Prop}

theorem pure {Q : α → ComposerState → Prop} (a : α) (h : ∀ s, P s → Q a s) :
    Finishes n r P (Pure.pure a : M α) Q :=
  fun _ => Safe.pure a h

/-- A step that stops with an error other than the recursion limit finishes. -/
theorem throw {Q : α → ComposerState → Prop} {e : LowerError} (he : ¬ IsLimit e) :
    Finishes n r P (MonadExcept.throw e : M α) Q :=
  fun _ => Safe.of_triple (Triple.of_fails fun _ _ _ h => nomatch h) fun _ _ h _ _ => by
    cases h
    exact he

theorem bind {x : M α} {f : α → M β} {Q : α → ComposerState → Prop}
    {R : β → ComposerState → Prop} (hx : Finishes n r P x Q)
    (hf : ∀ a, Finishes n r (Q a) (f a) R) : Finishes n r P (x >>= f) R :=
  fun opts => (hx opts).bind fun a => hf a opts

theorem mono {x : M α} {P' : ComposerState → Prop} {Q Q' : α → ComposerState → Prop}
    (hx : Finishes n r P x Q) (hP : ∀ s, P' s → P s) (hQ : ∀ a s, Q a s → Q' a s) :
    Finishes n r P' x Q' :=
  fun opts => (hx opts).mono hP hQ

theorem frame {x : M α} {Q : α → ComposerState → Prop} {R : ComposerState → Prop}
    (hx : Finishes n r P x Q) (hR : advancing.Persists R) :
    Finishes n r (fun s => P s ∧ R s) x fun a s => Q a s ∧ R s :=
  fun opts => (hx opts).frame hR

theorem keep {x : M α} {Q : α → ComposerState → Prop} (hx : Finishes n r P x Q)
    (hP : advancing.Persists P) : Finishes n r P x fun a s => Q a s ∧ P s :=
  fun opts => (hx opts).keep hP

theorem of_pure_pre {x : M α} {Q : α → ComposerState → Prop} {p : Prop}
    (h : p → Finishes n r (fun _ => True) x Q) : Finishes n r (fun _ => p) x Q :=
  fun opts => Safe.of_pure_pre fun hp => h hp opts

/-- A fact about the values alone may be taken out of the precondition. -/
theorem of_pure_and {x : M α} {Q : α → ComposerState → Prop} {p : Prop}
    {R : ComposerState → Prop} (h : p → Finishes n r R x Q) :
    Finishes n r (fun s => p ∧ R s) x Q :=
  fun opts => ⟨fun s a s' hx hI hs => (h hs.1 opts).1 s a s' hx hI hs.2,
    fun s e hx hI hs => (h hs.1 opts).2 s e hx hI hs.2⟩

theorem ite {x y : M α} {Q : α → ComposerState → Prop} (c : Prop) [Decidable c]
    (hx : Finishes n r P x Q) (hy : Finishes n r P y Q) :
    Finishes n r P (if c then x else y) Q :=
  fun opts => Safe.ite c (hx opts) (hy opts)

theorem bind_persist {x : M α} {f : α → M β} {Q : α → ComposerState → Prop}
    {R : β → ComposerState → Prop} (hx : Finishes n r P x Q) (hQ : advancing.Stable Q)
    (hP : advancing.Persists P) (hf : ∀ a, Finishes n r P (f a) fun b s => Q a s → R b s) :
    Finishes n r P (x >>= f) R :=
  fun opts => (hx opts).bind_persist hQ hP fun a => hf a opts

theorem forIn {γ : Type} {f : α → γ → M (ForInStep γ)} (xs : List α) (b : γ)
    (hf : ∀ a ∈ xs, ∀ b, Finishes n r P (f a b) fun _ s => P s) :
    Finishes n r P (ForIn.forIn xs b f) fun _ s => P s :=
  fun opts => Safe.forIn xs b fun a ha b => hf a ha b opts

theorem mapM {f : α → M β} {Q : α → β → ComposerState → Prop}
    (hQ : ∀ a, advancing.Stable (Q a)) (hP : advancing.Persists P) (xs : List α)
    (hf : ∀ a ∈ xs, Finishes n r P (f a) (Q a)) :
    Finishes n r P (xs.mapM f) fun ys s => List.Forall₂ (fun a b => Q a b s) xs ys :=
  fun opts => Safe.mapM hQ hP xs fun a ha => hf a ha opts

theorem option {f : α → M β} {R : β → ComposerState → Prop} (o : Option α)
    (hf : ∀ a ∈ o, Finishes n r P (f a) R) :
    Finishes n r P (o.mapM f) fun o' s => o'.isSome = o.isSome ∧ ∀ b ∈ o', R b s :=
  fun opts => Safe.option o fun a ha => hf a ha opts

theorem mapChildrenM {f : Expr → M Expr} {g : DeclId → M DeclId}
    {R : Expr → ComposerState → Prop} {Rg : DeclId → ComposerState → Prop} (e : Expr)
    (hR : advancing.Stable R) (hP : advancing.Persists P)
    (hf : ∀ c ∈ e.children, Finishes n r P (f c) R) (hg : ∀ d ∈ e.fnDecl?, Finishes n r P (g d) Rg) :
    Finishes n r P (e.mapChildrenM f g) fun e' s =>
      e'.callShape? = e.callShape? ∧ (∀ c' ∈ e'.children, R c' s) ∧ ∀ d' ∈ e'.fnDecl?, Rg d' s :=
  fun opts => Safe.mapChildrenM e hR hP (fun c hc => hf c hc opts) fun d hd => hg d hd opts

/-- A step that never fails and whose result, from any state the argument holds of, is a state
it holds of and that has advanced, finishes. -/
theorem of_run {x : M α} {Q : α → ComposerState → Prop}
    (h : ∀ opts s, Bounded n r s → P s →
      ∃ a s', x opts s = .ok (a, s') ∧ Bounded n r s' ∧ Advances s s' ∧ Q a s') :
    Finishes n r P x Q := by
  intro opts
  refine ⟨fun s a s' hx hI hP => ?_, fun s e hx hI hP => ?_⟩
  · obtain ⟨a', s'', hx', hI', hadv, hQ⟩ := h opts s hI hP
    rw [show (sem opts).run x s = x opts s from rfl, hx'] at hx
    cases hx
    exact ⟨hI', hadv, hQ⟩
  · obtain ⟨a', s'', hx', -⟩ := h opts s hI hP
    rw [show (sem opts).run x s = x opts s from rfl, hx'] at hx
    cases hx

/-- A step may be proved from each start state on its own. -/
theorem of_start {x : M α} {Q : α → ComposerState → Prop}
    (h : ∀ s₀, Bounded n r s₀ → P s₀ → Finishes n r (fun s => s = s₀) x Q) : Finishes n r P x Q :=
  fun opts => ⟨fun s a s' hx hI hP => (h s hI hP opts).1 s a s' hx hI rfl,
    fun s e hx hI hP => (h s hI hP opts).2 s e hx hI rfl⟩

/-- What the invariant gives may be read into the precondition. -/
theorem of_inv {x : M α} {P' : ComposerState → Prop} {Q : α → ComposerState → Prop}
    (hx : Finishes n r P' x Q) (h : ∀ s, Bounded n r s → P s → P' s) : Finishes n r P x Q :=
  of_start fun _ hI hP => hx.mono (fun _ hs => hs ▸ h _ hI hP) fun _ _ h => h

/-- What the invariant gives at the end may be read into the postcondition. -/
theorem mono_inv {x : M α} {Q Q' : α → ComposerState → Prop} (hx : Finishes n r P x Q)
    (h : ∀ a s, Bounded n r s → Q a s → Q' a s) : Finishes n r P x Q' := by
  intro opts
  refine ⟨fun s a s' hrun hI hs => ?_, (hx opts).2⟩
  have h₁ := (hx opts).1 s a s' hrun hI hs
  exact ⟨h₁.1, h₁.2.1, h a s' h₁.1 h₁.2.2⟩

/-- What a successful run gives may be read into the postcondition. -/
theorem of_ok {x : M α} {Q Q' : α → ComposerState → Prop} (hx : Finishes n r P x Q)
    (h : ∀ opts s a s', x opts s = .ok (a, s') → Bounded n r s → P s → Q a s' → Q' a s') :
    Finishes n r P x Q' := by
  intro opts
  refine ⟨fun s a s' hrun hI hs => ?_, (hx opts).2⟩
  have h₁ := (hx opts).1 s a s' hrun hI hs
  exact ⟨h₁.1, h₁.2.1, h opts s a s' hrun hI hs h₁.2.2⟩

/-- A step from states that cannot occur finishes. -/
theorem of_impossible {x : M α} {Q : α → ComposerState → Prop} (h : ∀ s, ¬ P s) :
    Finishes n r P x Q :=
  (of_pure_pre (p := False) False.elim).mono (fun s hs => h s hs) fun _ _ h => h

/-- A step that stops with an error other than the recursion limit finishes, whatever follows. -/
theorem throw_bind {f : α → M β} {Q : β → ComposerState → Prop} {e : LowerError}
    (he : ¬ IsLimit e) : Finishes n r P (MonadExcept.throw e >>= f) Q :=
  (throw (Q := fun _ _ => False) he).bind fun _ => of_impossible fun _ h => h

end Finishes

/-! ## Ranks of the nested declarations of an expression -/

/-- A declaration of the arena ranked, through its source, below `k`. -/
def DeclBelow (r : DeclId → Nat) (k : Nat) (d : DeclId) (s : ComposerState) : Prop :=
  d < s.module.decls.size ∧ r (sourceOf s d) < k

/-- Every declaration an expression holds is of the arena and ranked below `k`. -/
def FnsBelow (r : DeclId → Nat) (k : Nat) (e : Expr) (s : ComposerState) : Prop :=
  ∀ y ∈ e.nestedFns, DeclBelow r k y s

theorem stable_declBelow {k : Nat} : advancing.Stable (DeclBelow r k) :=
  fun d _ _ h hd => ⟨Nat.lt_of_lt_of_le hd.1 h.size_le, (h.source_eq d hd.1).symm ▸ hd.2⟩

theorem stable_fnsBelow {k : Nat} : advancing.Stable (FnsBelow r k) :=
  fun _ _ _ h he y hy => stable_declBelow y _ _ h (he y hy)

theorem FnsBelow.child {k : Nat} {e c : Expr} (he : FnsBelow r k e s) (hc : c ∈ e.children) :
    FnsBelow r k c s :=
  fun y hy => he y (Expr.nestedFns_subset_of_mem_children hc hy)

theorem FnsBelow.of_parts {k : Nat} {e : Expr} (hown : ∀ y ∈ e.fnDecl?, DeclBelow r k y s)
    (hchildren : ∀ c ∈ e.children, FnsBelow r k c s) : FnsBelow r k e s :=
  Expr.forall_nestedFns hown hchildren

/-- What a declaration owns holds declarations ranked below it. -/
theorem Bounded.fnsBelow_owned (hI : Bounded n r s) {d : DeclId} {e : Expr}
    (he : e ∈ (s.module.decl d).owned) : FnsBelow r (r (sourceOf s d)) e s :=
  fun y hy => ⟨hI.nested_lt d y (Module.nests_iff.2 ⟨e, he, hy⟩),
    hI.ranked d y (Module.nests_iff.2 ⟨e, he, hy⟩)⟩

/-! ## Editing the module -/

/-- A new module of the same size whose nesting the ranks still order keeps the argument. -/
theorem Bounded.withModule (hI : Bounded n r s) {m : Module}
    (hsize : m.decls.size = s.module.decls.size)
    (hnests : ∀ x y, m.Nests x y → y < s.module.decls.size ∧ r (sourceOf s y) < r (sourceOf s x)) :
    Bounded n r { s with module := m } where
  size_ge := hsize ▸ hI.size_ge
  rank_le := hI.rank_le
  new_clone d h₁ h₂ := hI.new_clone d h₁ (hsize ▸ h₂)
  clone_lt a b h := hsize ▸ hI.clone_lt a b h
  clone_inj := hI.clone_inj
  nested_lt x y h := hsize ▸ (hnests x y h).1
  ranked x y h := (hnests x y h).2
  keys_nodup := hI.keys_nodup
  declarations_eq := hI.declarations_eq

theorem Advances.withModule {m : Module} (hsize : m.decls.size = s.module.decls.size) :
    Advances s { s with module := m } :=
  ⟨Nat.le_of_eq hsize.symm, fun _ h => h, fun _ h => h, fun _ _ => rfl⟩

/-- A module edit that keeps the size and nests nothing new keeps the argument. -/
theorem Bounded.of_nests (hI : Bounded n r s) {m : Module}
    (hsize : m.decls.size = s.module.decls.size) (hnests : ∀ x y, m.Nests x y → s.module.Nests x y) :
    Bounded n r { s with module := m } :=
  hI.withModule hsize fun x y h => ⟨hI.nested_lt x y (hnests x y h), hI.ranked x y (hnests x y h)⟩

theorem Bounded.withCalls (hI : Bounded n r s) (c : Nat) : Bounded n r { s with calls := c } :=
  ⟨hI.1, hI.2, hI.3, hI.4, hI.5, hI.6, hI.7, hI.8, hI.9⟩

theorem Advances.withCalls (c : Nat) : Advances s { s with calls := c } :=
  ⟨Nat.le_refl _, fun _ h => h, fun _ h => h, fun _ _ => rfl⟩

/-- Marking a declaration lowered keeps the argument. -/
theorem Bounded.markLowered (hI : Bounded n r s) (d : DeclId) :
    Bounded n r { s with lowered := d :: s.lowered } :=
  ⟨hI.1, hI.2, fun x h₁ h₂ => (hI.3 x h₁ h₂).imp (List.mem_cons_of_mem _) id, hI.4, hI.5, hI.6,
    hI.7, hI.8, hI.9⟩

theorem Advances.markLowered (d : DeclId) : Advances s { s with lowered := d :: s.lowered } :=
  ⟨Nat.le_refl _, fun _ h => List.mem_cons_of_mem _ h, fun _ h => h, fun _ _ => rfl⟩

/-- A property of states that allocating a value keeps. -/
def IgnoresValues (P : ComposerState → Prop) : Prop :=
  ∀ s (name : String), P s → P { s with module := (s.module.newValue name).1 }

namespace Finishes

variable {P : ComposerState → Prop}

/-- A module edit finishes when, from every state the argument holds of, it keeps the size and
the ranks still order its nesting. -/
theorem editModule {f : Module → Module} {Q : Unit → ComposerState → Prop}
    (h : ∀ s, Bounded n r s → P s → (f s.module).decls.size = s.module.decls.size ∧
      (∀ x y, (f s.module).Nests x y →
        y < s.module.decls.size ∧ r (sourceOf s y) < r (sourceOf s x)) ∧
      Q () { s with module := f s.module }) :
    Finishes n r P (Composer.modifyModule f) Q :=
  of_run fun _ s hI hs => ⟨(), _, rfl, hI.withModule (h s hI hs).1 (h s hI hs).2.1,
    Advances.withModule (h s hI hs).1, (h s hI hs).2.2⟩

/-- A module edit that keeps the size and nests nothing new finishes. -/
theorem modifyModule {f : Module → Module} (hP : advancing.Persists P)
    (hsize : ∀ m, (f m).decls.size = m.decls.size) (hnests : ∀ m x y, (f m).Nests x y → m.Nests x y) :
    Finishes n r P (Composer.modifyModule f) fun _ s => P s :=
  editModule fun _ hI hs => ⟨hsize _, fun x y h => ⟨hI.nested_lt x y (hnests _ x y h),
    hI.ranked x y (hnests _ x y h)⟩, hP _ _ (Advances.withModule (hsize _)) hs⟩

theorem getModule : Finishes n r P Composer.getModule fun m s => m = s.module ∧ P s :=
  of_run fun _ s hI hP => ⟨s.module, s, rfl, hI, Advances.refl s, rfl, hP⟩

theorem get : Finishes n r P (MonadState.get : M ComposerState) fun t s => t = s ∧ P s :=
  of_run fun _ s hI hP => ⟨s, s, rfl, hI, Advances.refl s, rfl, hP⟩

theorem read : Finishes n r P (MonadReader.read : M LowerOptions) fun _ s => P s :=
  of_run fun opts s hI hP => ⟨opts, s, rfl, hI, Advances.refl s, hP⟩

theorem getModule_at (s₀ : ComposerState) :
    Finishes n r (fun s => s = s₀) Composer.getModule fun m s => m = s₀.module ∧ s = s₀ :=
  getModule.mono (fun _ h => h) fun _ _ h => ⟨h.2 ▸ h.1, h.2⟩

theorem get_at (s₀ : ComposerState) :
    Finishes n r (fun s => s = s₀) (MonadState.get : M ComposerState) fun t s => t = s₀ ∧ s = s₀ :=
  get.mono (fun _ h => h) fun _ _ h => ⟨h.2 ▸ h.1, h.2⟩

theorem newValue (hP : IgnoresValues P) (name : String) :
    Finishes n r P (Composer.newValue name) fun _ s => P s :=
  of_run fun _ s hI hP' => ⟨_, _, rfl, hI.of_nests rfl fun _ _ h => h, Advances.withModule rfl,
    hP s name hP'⟩

/-- Counting a rewritten call finishes. -/
theorem countCall (hP : ∀ s, P s → P { s with calls := s.calls + 1 }) :
    Finishes n r P (modify fun s : ComposerState => { s with calls := s.calls + 1 }) fun _ s => P s :=
  of_run fun _ s hI hs => ⟨(), _, rfl, hI.withCalls _, Advances.withCalls _, hP s hs⟩

/-- A computation that does not fault with the recursion limit finishes with its value. -/
theorem liftFault {x : Except Fault α} (hx : x ≠ .error .recursionLimit) :
    Finishes n r P (Composer.liftFault x) fun a s => x = .ok a ∧ P s := by
  cases x with
  | ok a => exact pure a fun _ h => ⟨rfl, h⟩
  | error f => exact throw fun h => hx (by cases h; rfl)

end Finishes

/-! ## Registering a clone -/

/-- Registering one of the declarations still to clone leaves one fewer. -/
theorem unregistered_register {t : ComposerState} {old new : DeclId} (hold : old < n)
    (hnew : n ≤ new) (hl : old ∉ s.lowered) (hc : s.clones.lookup old = none)
    (hl' : t.lowered = new :: s.lowered) (hc' : t.clones = (old, new) :: s.clones) :
    unregistered n t + 1 = unregistered n s := by
  have hmem : old ∈ (Finset.range n).filter fun d => d ∉ s.lowered ∧ s.clones.lookup d = none := by
    simp [hold, hl, hc]
  have herase : ((Finset.range n).filter fun d => d ∉ t.lowered ∧ t.clones.lookup d = none) =
      ((Finset.range n).filter fun d => d ∉ s.lowered ∧ s.clones.lookup d = none).erase old := by
    ext d
    simp only [Finset.mem_filter, Finset.mem_range, Finset.mem_erase, hl', hc', List.mem_cons,
      List.lookup_cons]
    by_cases hd : d = old
    · simp [hd]
    · simp only [beq_false_of_ne hd]
      constructor
      · rintro ⟨hdn, hnl, hlk⟩
        exact ⟨hd, hdn, fun h => hnl (.inr h), hlk⟩
      · rintro ⟨-, hdn, hnl, hlk⟩
        exact ⟨hdn, fun h => h.elim (fun h => Nat.ne_of_lt (Nat.lt_of_lt_of_le hdn hnew) h) hnl, hlk⟩
  unfold unregistered
  rw [herase, Finset.card_erase_of_mem hmem]
  exact Nat.sub_add_cancel (Finset.card_pos.2 ⟨old, hmem⟩)

theorem sourceOf_register {s' : ComposerState} {old new : DeclId}
    (hc' : s'.clones = (old, new) :: s.clones) {d : DeclId} (hd : d ≠ new) :
    sourceOf s' d = sourceOf s d := by
  change copySource s'.clones d = copySource s.clones d
  rw [hc', copySource_cons_of_ne (Ne.symm hd)]

/-- Appending a clone with nothing to lower yet, registered as the lowered form of one of the
module's own declarations that was still to clone, keeps the argument. -/
theorem Bounded.register (hI : Bounded n r s) {old : DeclId} {x : Decl} (hold : old < n)
    (hc : s.clones.lookup old = none) (hx : x.owned = []) :
    Bounded n r { s with module := (s.module.allocDecl x).1,
                         lowered := s.module.decls.size :: s.lowered,
                         clones := (old, s.module.decls.size) :: s.clones,
                         declarations := s.declarations + 1 } := by
  set new := s.module.decls.size
  have hsrc : ∀ d, d ≠ new → sourceOf { s with module := (s.module.allocDecl x).1,
                                                lowered := new :: s.lowered,
                                                clones := (old, new) :: s.clones,
                                                declarations := s.declarations + 1 } d =
      sourceOf s d :=
    fun _ hd => sourceOf_register rfl hd
  have hnests : ∀ a b, (s.module.allocDecl x).1.Nests a b → s.module.Nests a b := by
    intro a b h
    rcases Module.nests_allocDecl h with ⟨-, hb⟩ | h
    · simp [Decl.nestedFns_eq_owned, hx] at hb
    · exact h
  have hsize : (s.module.allocDecl x).1.decls.size = new + 1 := by simp [Module.allocDecl, new]
  have hne : ∀ a b, (a, b) ∈ s.clones → b ≠ new := fun a b h => Nat.ne_of_lt (hI.clone_lt a b h).2.2
  refine ⟨?_, hI.rank_le, ?_, ?_, ?_, ?_, ?_, ?_, ?_⟩
  · rw [hsize]; exact Nat.le_succ_of_le hI.size_ge
  · intro d hn hd
    rw [hsize] at hd
    by_cases hdn : d = new
    · exact ⟨List.mem_cons.2 (.inl hdn), old, List.mem_cons.2 (.inl (hdn ▸ rfl))⟩
    · obtain ⟨hl, a, ha⟩ := hI.new_clone d hn (by omega)
      exact ⟨List.mem_cons_of_mem _ hl, a, List.mem_cons_of_mem _ ha⟩
  · intro a b h
    rw [hsize]
    rcases List.mem_cons.1 h with h | h
    · cases h
      exact ⟨hold, hI.size_ge, Nat.lt_succ_self _⟩
    · obtain ⟨ha, hb, hb'⟩ := hI.clone_lt a b h
      exact ⟨ha, hb, Nat.lt_succ_of_lt hb'⟩
  · intro a a' b h h'
    rcases List.mem_cons.1 h with h | h <;> rcases List.mem_cons.1 h' with h' | h'
    · cases h; cases h'; rfl
    · cases h; exact absurd rfl (hne a' _ h')
    · cases h'; exact absurd rfl (hne a _ h)
    · exact hI.clone_inj a a' b h h'
  · intro a b h
    rw [hsize]
    exact Nat.lt_succ_of_lt (hI.nested_lt a b (hnests a b h))
  · intro a b h
    have h := hnests a b h
    have ha : a ≠ new := fun ha => Module.not_nests_of_size_le (Nat.le_of_eq ha.symm) h
    rw [hsrc a ha, hsrc b (Nat.ne_of_lt (hI.nested_lt a b h))]
    exact hI.ranked a b h
  · refine List.nodup_cons.2 ⟨fun h => ?_, hI.keys_nodup⟩
    obtain ⟨p, hp, hpo⟩ := List.mem_map.1 h
    simpa [hpo] using List.lookup_eq_none_iff.1 hc p hp
  · simp [hI.declarations_eq]

theorem Advances.register {old : DeclId} {x : Decl} :
    Advances s { s with module := (s.module.allocDecl x).1,
                        lowered := s.module.decls.size :: s.lowered,
                        clones := (old, s.module.decls.size) :: s.clones,
                        declarations := s.declarations + 1 } :=
  ⟨by simp [Module.allocDecl], fun _ h => List.mem_cons_of_mem _ h,
    fun _ h => List.mem_cons_of_mem _ h, fun _ hd => sourceOf_register rfl (Nat.ne_of_lt hd)⟩

/-- Registering one of the declarations still to clone frees one stretch of fuel. -/
theorem need_register {old : DeclId} {x : Decl} (hold : old < n) (hn : n ≤ s.module.decls.size)
    (hl : old ∉ s.lowered) (hc : s.clones.lookup old = none) :
    need n { s with module := (s.module.allocDecl x).1,
                    lowered := s.module.decls.size :: s.lowered,
                    clones := (old, s.module.decls.size) :: s.clones,
                    declarations := s.declarations + 1 } + (n + 3) = need n s := by
  unfold need
  rw [← unregistered_register (t := { s with module := (s.module.allocDecl x).1,
                                             lowered := s.module.decls.size :: s.lowered,
                                             clones := (old, s.module.decls.size) :: s.clones,
                                             declarations := s.declarations + 1 })
    hold hn hl hc rfl rfl]
  exact (Nat.succ_mul _ _).symm

namespace Finishes

variable {P : ComposerState → Prop}

theorem renameReceiver (hP : IgnoresValues P) (values : List (ValueId × ValueId)) :
    ∀ p : Option Param, Finishes n r P (Composer.renameReceiver values p) fun _ s => P s
  | none => pure _ fun _ h => h
  | some _ => (newValue hP _).bind fun _ => pure _ fun _ h => h

theorem renameParams (hP : IgnoresValues P) :
    ∀ (ps : List Param) (values : List (ValueId × ValueId)),
      Finishes n r P (Composer.renameParams ps values) fun res s =>
        ((∀ p ∈ res.1, p.default = none) ∧ res.2.1 = ps.map (·.default)) ∧ P s
  | [], _ => pure _ fun _ h => ⟨by simp, h⟩
  | p :: ps, values => by
    rw [Composer.renameParams]
    refine (newValue hP _).bind fun v => (renameParams hP ps _).bind fun res => ?_
    obtain ⟨rest, defaults, values'⟩ := res
    refine pure _ fun s h => ?_
    obtain ⟨⟨hnone, hdefaults⟩, hs⟩ := h
    dsimp only at hnone hdefaults ⊢
    refine ⟨⟨fun q hq => ?_, by rw [hdefaults, List.map_cons]⟩, hs⟩
    rcases List.mem_cons.1 hq with rfl | hq
    · rfl
    · exact hnone q hq

theorem syntheticParams (hP : IgnoresValues P) :
    ∀ sps : List SyntheticParam, Finishes n r P (Composer.syntheticParams sps) fun ps s =>
      (∀ p ∈ ps, p.default = none) ∧ P s
  | [] => pure _ fun _ h => ⟨by simp, h⟩
  | sp :: sps => by
    unfold Composer.syntheticParams
    refine (newValue hP _).bind fun v => (syntheticParams hP sps).bind fun rest => ?_
    refine pure _ fun s h => ⟨fun q hq => ?_, h.2⟩
    rcases List.mem_cons.1 hq with rfl | hq
    · rfl
    · exact h.1 q hq

theorem allocClone {F : Nat} {old : DeclId} (hP : advancing.Persists P) :
    Finishes n r (fun s => P s ∧ need n s ≤ F + (n + 3) ∧ old < n ∧ old ∉ s.lowered ∧
        s.clones.lookup old = none)
      (Composer.allocClone old) fun cl s => P s ∧ need n s ≤ F ∧ (old, cl.new) ∈ s.clones ∧
        (∀ o ∈ cl.defaults, ∀ e ∈ o, FnsBelow r (r old) e s) ∧
        ∀ e ∈ cl.source.body, FnsBelow r (r old) e s := by
  refine of_start fun s₀ hI₀ hpre => ?_
  obtain ⟨hP₀, hneed, hold, hl, hc⟩ := hpre
  have hown : ∀ e ∈ (s₀.module.decl old).owned, FnsBelow r (r old) e s₀ :=
    fun e he => hI₀.sourceOf_of_lt hold ▸ hI₀.fnsBelow_owned he
  unfold Composer.allocClone
  refine Finishes.bind (Q := fun m s => m = s₀.module ∧ s = s₀)
    ((getModule (P := fun s => s = s₀)).mono (fun _ h => h) fun _ _ h => ⟨h.2 ▸ h.1, h.2⟩)
    fun m => of_pure_and fun hm => ?_
  subst hm
  dsimp only
  refine ite _ ?_ ?_
  · refine (liftFault (hI₀.nestRanking.dumpSignature_ne_recursionLimit old)).bind fun _ =>
      Finishes.bind (Q := fun _ _ => False) (throw nofun) fun _ =>
        of_pure_pre (p := False) False.elim |>.mono (fun _ h => h) fun _ _ h => h
  -- renaming only allocates values
  have hQ : IgnoresValues fun s => Advances s₀ s ∧ s.lowered = s₀.lowered ∧ s.clones = s₀.clones :=
    fun _ _ h => ⟨h.1.trans (Advances.withModule rfl), h.2⟩
  refine Finishes.mono ?_ (fun s (h : s = s₀) => (h ▸ ⟨Advances.refl _, rfl, rfl⟩ :
    Advances s₀ s ∧ s.lowered = s₀.lowered ∧ s.clones = s₀.clones)) fun _ _ h => h
  refine (renameReceiver hQ _ _).bind fun _ => (renameReceiver hQ _ _).bind fun _ => ?_
  refine (renameParams hQ _ _).bind fun params => of_pure_and fun hparams => ?_
  refine (syntheticParams hQ _).bind fun synthetic => of_pure_and fun hsynth => ?_
  refine get.bind fun t => ?_
  refine of_run fun opts s hI h => ?_
  obtain ⟨rfl, hadv, hlow, hcl⟩ := h
  refine ⟨_, _, rfl, hI.register hold (hcl ▸ hc) ?_, Advances.register, ?_⟩
  · simp only [Decl.owned, Option.toList_none, List.append_nil, List.filterMap_append,
      List.append_eq_nil_iff, List.filterMap_eq_nil_iff]
    exact ⟨fun p hp => by simp [hparams.1 p hp], fun p hp => by simp [hsynth p hp]⟩
  refine ⟨hP _ _ (hadv.trans Advances.register) hP₀, ?_, List.mem_cons_self, ?_, ?_⟩
  · refine Nat.le_of_add_le_add_right (b := n + 3) ?_
    exact (need_register hold hI.size_ge (hlow ▸ hl) (hcl ▸ hc)).le.trans
      (Nat.le_trans hadv.need_le hneed)
  · intro o ho e he
    rcases List.mem_append.1 ho with ho | ho
    · rw [hparams.2] at ho
      obtain ⟨p, hp, rfl⟩ := List.mem_map.1 ho
      exact stable_fnsBelow e _ _ (hadv.trans Advances.register) (hown e (List.mem_append_left _ (List.mem_filterMap.2 ⟨p, hp, he⟩)))
    · obtain ⟨_, _, rfl⟩ := List.mem_map.1 ho
      exact absurd he (by simp)
  · intro e he
    exact stable_fnsBelow e _ _ (hadv.trans Advances.register) (hown e (List.mem_append_right _ (Option.mem_toList.2 he)))

end Finishes

end Composer

end ComposeLowering
