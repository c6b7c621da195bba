import ComposeLowering.Proofs.Triple
import ComposeLowering.Proofs.Nesting

/-!
# Triples that also rule out an error

A triple of `ComposeLowering.Proofs.Triple` speaks only of the runs that succeed. A run of the
lowering can also stop with an error, and not every error is an answer about the input: the
recursion limit stands for a run that would not end. `S.Safe Bad G I P x Q` adds to the triple
that the step, run from a state satisfying `I` and `P`, never stops with an error that `Bad`
names.

The rules are those of the triples with the error case added. A sequence stops with an error
only where one of its steps does, and its second step starts where the first succeeded, so the
first step's triple hands the second its precondition. The rules for lists, optional values,
loops and the rebuilding of an expression node are derived from `bind`, `pure` and `frame`. The
rule for rebuilding a node also says what becomes of the declaration a `fn` node holds, so that
walks can follow the nesting. A plain triple is a safe step for which no error is bad, so the
same rules serve plain triples, read back at the end of this file.
-/

namespace ComposeLowering

namespace StepSemantics

variable {m : Type → Type} [Monad m] {σ ε α β : Type}

variable (S : StepSemantics m σ ε) in
/-- The step `x`, run from a state satisfying `I` and `P`, never stops with an error that `Bad`
names, and when it succeeds it ends as `S.Triple G I P x Q` says. -/
def Safe (Bad : ε → Prop) (G : Growth σ) (I P : σ → Prop) (x : m α) (Q : α → σ → Prop) : Prop :=
  S.Triple G I P x Q ∧ ∀ s e, S.run x s = .error e → I s → P s → ¬ Bad e

variable {S : StepSemantics m σ ε} {Bad : ε → Prop} {G : Growth σ} {I P : σ → Prop}

namespace Safe

theorem triple {x : m α} {Q : α → σ → Prop} (h : S.Safe Bad G I P x Q) : S.Triple G I P x Q :=
  h.1

/-- A step that stops with no bad error, with its triple, is safe. -/
theorem of_triple {x : m α} {Q : α → σ → Prop} (h : S.Triple G I P x Q)
    (hne : ∀ s e, S.run x s = .error e → I s → P s → ¬ Bad e) : S.Safe Bad G I P x Q :=
  ⟨h, hne⟩

/-- A step that never stops with an error is safe with its triple. -/
theorem of_never_fails {x : m α} {Q : α → σ → Prop} (h : S.Triple G I P x Q)
    (hne : ∀ s e, S.run x s ≠ .error e) : S.Safe Bad G I P x Q :=
  ⟨h, fun s e hx => absurd hx (hne s e)⟩

theorem pure {Q : α → σ → Prop} (a : α) (h : ∀ s, P s → Q a s) :
    S.Safe Bad G I P (Pure.pure a : m α) Q :=
  of_never_fails (Triple.pure a h) fun s e hx => by rw [S.run_pure] at hx; cases hx

theorem bind {x : m α} {f : α → m β} {Q : α → σ → Prop} {R : β → σ → Prop}
    (hx : S.Safe Bad G I P x Q) (hf : ∀ a, S.Safe Bad G I (Q a) (f a) R) :
    S.Safe Bad G I P (x >>= f) R := by
  refine ⟨hx.1.bind fun a => (hf a).1, fun s e h hI hP => ?_⟩
  rw [S.run_bind] at h
  cases hr : S.run x s with
  | error e' =>
    rw [hr] at h
    cases h
    exact hx.2 s _ hr hI hP
  | ok p =>
    rw [hr] at h
    -- the second step starts where the first succeeded
    obtain ⟨hI', -, hQ⟩ := hx.1 s p.1 p.2 hr hI hP
    exact (hf p.1).2 p.2 e h hI' hQ

theorem mono {x : m α} {P' : σ → Prop} {Q Q' : α → σ → Prop} (hx : S.Safe Bad G I P x Q)
    (hP : ∀ s, P' s → P s) (hQ : ∀ a s, Q a s → Q' a s) : S.Safe Bad G I P' x Q' :=
  ⟨hx.1.mono hP hQ, fun s e h hI hP' => hx.2 s e h hI (hP s hP')⟩

/-- A persistent fact about the start holds at the end. -/
theorem frame {x : m α} {Q : α → σ → Prop} {R : σ → Prop} (hx : S.Safe Bad G I P x Q)
    (hR : G.Persists R) : S.Safe Bad G I (fun s => P s ∧ R s) x fun a s => Q a s ∧ R s :=
  ⟨hx.1.frame hR, fun s e h hI hP => hx.2 s e h hI hP.1⟩

/-- A persistent precondition still holds at the end. -/
theorem keep {x : m α} {Q : α → σ → Prop} (hx : S.Safe Bad G I P x Q) (hP : G.Persists P) :
    S.Safe Bad G I P x fun a s => Q a s ∧ P s :=
  (hx.frame hP).mono (fun _ h => ⟨h, h⟩) fun _ _ h => h

/-- A precondition that does not read the state may be assumed outright. -/
theorem of_pure_pre {x : m α} {Q : α → σ → Prop} {p : Prop}
    (h : p → S.Safe Bad G I (fun _ => True) x Q) : S.Safe Bad G I (fun _ => p) x Q :=
  ⟨Triple.of_pure_pre fun hp => (h hp).1, fun s e hx hI hp => (h hp).2 s e hx hI trivial⟩

/-- A step may be proved from each start state on its own. -/
theorem of_start {x : m α} {Q : α → σ → Prop}
    (h : ∀ s₀, I s₀ → P s₀ → S.Safe Bad G I (fun s => s = s₀) x Q) : S.Safe Bad G I P x Q :=
  ⟨fun s a s' hx hI hP => (h s hI hP).1 s a s' hx hI rfl,
    fun s e hx hI hP => (h s hI hP).2 s e hx hI rfl⟩

/-- What the invariant gives may be read into the precondition. -/
theorem of_inv {x : m α} {P' : σ → Prop} {Q : α → σ → Prop} (hx : S.Safe Bad G I P' x Q)
    (h : ∀ s, I s → P s → P' s) : S.Safe Bad G I P x Q :=
  of_start fun _ hI hP => hx.mono (fun _ hs => hs ▸ h _ hI hP) fun _ _ h => h

/-- A step from states that cannot occur is safe. -/
theorem of_impossible {x : m α} {Q : α → σ → Prop} (h : ∀ s, ¬ P s) : S.Safe Bad G I P x Q :=
  ⟨fun s _ _ _ _ hP => absurd hP (h s), fun s _ _ _ hP => absurd hP (h s)⟩

/-- A step that succeeds from every start as the triple says is safe. -/
theorem of_run {x : m α} {Q : α → σ → Prop}
    (h : ∀ s, I s → P s → ∃ a s', S.run x s = .ok (a, s') ∧ I s' ∧ G.rel s s' ∧ Q a s') :
    S.Safe Bad G I P x Q := by
  refine ⟨fun s a s' hx hI hP => ?_, fun s e hx hI hP => ?_⟩
  · obtain ⟨a', s'', hx', hrest⟩ := h s hI hP
    rw [hx'] at hx
    cases hx
    exact hrest
  · obtain ⟨a', s'', hx', -⟩ := h s hI hP
    rw [hx'] at hx
    cases hx

/-- The part of a precondition that does not read the state may be assumed outright. -/
theorem of_pure_and {x : m α} {Q : α → σ → Prop} {p : Prop} (h : p → S.Safe Bad G I P x Q) :
    S.Safe Bad G I (fun s => p ∧ P s) x Q :=
  ⟨fun s a s' hx hI hs => (h hs.1).1 s a s' hx hI hs.2,
    fun s e hx hI hs => (h hs.1).2 s e hx hI hs.2⟩

theorem ite {x y : m α} {Q : α → σ → Prop} (c : Prop) [Decidable c]
    (hx : S.Safe Bad G I P x Q) (hy : S.Safe Bad G I P y Q) :
    S.Safe Bad G I P (if c then x else y) Q := by
  split
  · exact hx
  · exact hy

/-- Sequencing where the first step's stable postcondition is still needed at the end, and the
persistent precondition is needed by the second step. -/
theorem bind_persist {x : m α} {f : α → m β} {Q : α → σ → Prop} {R : β → σ → Prop}
    (hx : S.Safe Bad G I P x Q) (hQ : G.Stable Q) (hP : G.Persists P)
    (hf : ∀ a, S.Safe Bad G I P (f a) fun b s => Q a s → R b s) :
    S.Safe Bad G I P (x >>= f) R := by
  refine ((hx.keep hP).bind fun a => ((hf a).frame (hQ a)).mono (fun _ h => ⟨h.2, h.1⟩)
    fun _ _ h => h.1 h.2).mono (fun _ h => h) fun _ _ h => h

theorem map [LawfulMonad m] {x : m α} {g : α → β} {Q : α → σ → Prop}
    (hx : S.Safe Bad G I P x Q) : S.Safe Bad G I P (g <$> x) fun b s => ∃ a, b = g a ∧ Q a s := by
  rw [map_eq_pure_bind]
  exact hx.bind fun a => Safe.pure _ fun _ h => ⟨a, rfl, h⟩

/-- A loop whose every iteration keeps the precondition keeps it. -/
theorem forIn [LawfulMonad m] {γ : Type} {f : α → γ → m (ForInStep γ)} :
    ∀ (xs : List α) (b : γ), (∀ a ∈ xs, ∀ b, S.Safe Bad G I P (f a b) fun _ s => P s) →
      S.Safe Bad G I P (ForIn.forIn xs b f) fun _ s => P s
  | [], b, _ => Safe.pure b fun _ h => h
  | a :: xs, b, hf => by
    rw [List.forIn_cons]
    refine Safe.bind (hf a List.mem_cons_self b) fun r => ?_
    cases r with
    | done b' => exact Safe.pure b' fun _ h => h
    | yield b' => exact Safe.forIn xs b' fun a' ha' => hf a' (List.mem_cons_of_mem _ ha')

/-- A loop over a list whose every step keeps the precondition keeps it. -/
theorem forM [LawfulMonad m] {f : α → m PUnit} :
    ∀ (xs : List α), (∀ a ∈ xs, S.Safe Bad G I P (f a) fun _ s => P s) →
      S.Safe Bad G I P (xs.forM f) fun _ s => P s
  | [], _ => Safe.pure _ fun _ h => h
  | a :: xs, hf => by
    show S.Safe Bad G I P (f a >>= fun _ => xs.forM f) _
    exact Safe.bind (hf a List.mem_cons_self) fun _ =>
      Safe.forM xs fun a' ha' => hf a' (List.mem_cons_of_mem _ ha')

/-- Mapping a step over a list, each from a persistent precondition: every result satisfies
the stable postcondition of its element's step. -/
theorem mapM [LawfulMonad m] {f : α → m β} {Q : α → β → σ → Prop}
    (hQ : ∀ a, G.Stable (Q a)) (hP : G.Persists P) :
    ∀ (xs : List α), (∀ a ∈ xs, S.Safe Bad G I P (f a) (Q a)) →
      S.Safe Bad G I P (xs.mapM f) fun ys s => List.Forall₂ (fun a b => Q a b s) xs ys
  | [], _ => Safe.pure _ fun _ _ => List.Forall₂.nil
  | a :: xs, hf => by
    rw [List.mapM_cons]
    refine Safe.bind_persist (hf a List.mem_cons_self) (hQ a) hP fun b => ?_
    refine Safe.bind_persist (Safe.mapM hQ hP xs fun a' ha' => hf a' (List.mem_cons_of_mem _ ha'))
      ?_ hP fun bs => Safe.pure _ fun _ _ hbs hb => List.Forall₂.cons hb hbs
    exact fun ys s s' hg h => h.imp fun a b hab => hQ a b s s' hg hab

/-- A step applied to an optional value keeps whether there is one. -/
theorem option [LawfulMonad m] {f : α → m β} {R : β → σ → Prop} (o : Option α)
    (hf : ∀ a ∈ o, S.Safe Bad G I P (f a) R) :
    S.Safe Bad G I P (o.mapM f) fun o' s => o'.isSome = o.isSome ∧ ∀ b ∈ o', R b s := by
  cases o with
  | none => exact Safe.pure _ fun _ _ => ⟨rfl, fun _ h => nomatch h⟩
  | some a =>
    refine (Safe.map (hf a rfl)).mono (fun _ h => h) ?_
    rintro _ s ⟨b, rfl, hb⟩
    exact ⟨rfl, fun b' hb' => Option.some_inj.1 hb' ▸ hb⟩

/-- A step applied to an optional value that gives `F` of the value gives the value mapped by
`F`. -/
theorem option_eq [LawfulMonad m] {f : α → m β} {F : α → β} (o : Option α)
    (hf : ∀ a ∈ o, S.Safe Bad G I P (f a) fun b _ => b = F a) :
    S.Safe Bad G I P (o.mapM f) fun o' _ => o' = o.map F := by
  cases o with
  | none => exact Safe.pure _ fun _ _ => rfl
  | some a =>
    refine (Safe.map (hf a rfl)).mono (fun _ h => h) ?_
    rintro _ _ ⟨b, rfl, rfl⟩
    rfl

/-- A step mapped over a list, from a persistent precondition, that gives `F` of each element
gives the list mapped by `F`. -/
theorem mapM_eq [LawfulMonad m] {f : α → m β} {F : α → β} (hP : G.Persists P) (xs : List α)
    (hf : ∀ a ∈ xs, S.Safe Bad G I P (f a) fun b _ => b = F a) :
    S.Safe Bad G I P (xs.mapM f) fun ys _ => ys = xs.map F := by
  refine (Safe.mapM (Q := fun (a : α) (b : β) (_ : σ) => b = F a) (fun _ _ _ _ _ h => h) hP xs
    hf).mono (fun _ h => h) fun ys _ h => ?_
  simpa using map_eq_of_forall₂ (g := id) h

/-- Rebuilding a node from its children: the node keeps its call shape, every new child
satisfies the stable postcondition of the step that made it, and so does the declaration of a
`fn` node. -/
theorem mapChildrenM [LawfulMonad m] {f : Expr → m Expr} {g : DeclId → m DeclId}
    {R : Expr → σ → Prop} {Rg : DeclId → σ → Prop} (e : Expr) (hR : G.Stable R)
    (hP : G.Persists P) (hf : ∀ c ∈ e.children, S.Safe Bad G I P (f c) R)
    (hg : ∀ d ∈ e.fnDecl?, S.Safe Bad G I P (g d) Rg) :
    S.Safe Bad G I P (e.mapChildrenM f g) fun e' s =>
      e'.callShape? = e.callShape? ∧ (∀ c' ∈ e'.children, R c' s) ∧ ∀ d' ∈ e'.fnDecl?, Rg d' s := by
  -- a list of children is one `mapM`, once the membership proofs that `attach` threads are
  -- dropped
  have hlist : ∀ xs : List Expr, (∀ c ∈ xs, c ∈ e.children) →
      S.Safe Bad G I P (xs.mapM f) fun ys s => ∀ c' ∈ ys, R c' s := by
    intro xs hxs
    exact (Safe.mapM (Q := fun _ => R) (fun _ => hR) hP xs
      fun c hc => hf c (hxs c hc)).mono (fun _ h => h) fun _ _ h => forall_mem_of_forall₂ h
  cases e with
  | const | get | maskBit =>
    exact Safe.pure _ fun _ _ => ⟨rfl, by simp [Expr.children], by simp [Expr.fnDecl?]⟩
  | fn d t =>
    refine Safe.bind (hg d rfl) fun d' => Safe.pure _ fun _ hd' => ?_
    exact ⟨rfl, by simp [Expr.children], by simpa [Expr.fnDecl?] using hd'⟩
  | set v x t | letVal v x t | ret v x t | inlineNew x t =>
    refine Safe.bind (hf x (by simp [Expr.children])) fun x' => Safe.pure _ fun _ hx => ?_
    simp [Expr.callShape?, Expr.children, Expr.fnDecl?, hx]
  | block xs t | composite o xs t | vararg xs t =>
    first
      | rw [(Expr.mapChildrenM_list f g xs t .statements).1]
      | rw [(Expr.mapChildrenM_list f g xs t o).2.1]
      | rw [(Expr.mapChildrenM_list f g xs t .statements).2.2]
    exact Safe.bind (hlist xs fun c hc => by simpa [Expr.children] using hc) fun ys =>
      Safe.pure _ fun _ h => ⟨rfl, h, by simp [Expr.fnDecl?]⟩
  | ite c a b t =>
    rw [Expr.mapChildrenM_ite]
    refine Safe.bind_persist (hf c (by simp [Expr.children])) hR hP fun c' => ?_
    refine Safe.bind_persist (hf a (by simp [Expr.children])) hR hP fun a' => ?_
    refine Safe.bind_persist (Safe.option b fun y hy => hf y ?_) (stable_option hR b) hP
      fun b' => Safe.pure _ fun s _ hb ha hc => ⟨rfl, ?_, by simp [Expr.fnDecl?]⟩
    · simp [Expr.children, Option.mem_def.1 hy]
    intro y hy
    simp only [Expr.children, List.mem_cons] at hy
    rcases hy with rfl | rfl | hy
    · exact hc
    · exact ha
    · exact hb.2 y (Option.mem_toList.1 hy)
  | call tgt d x ta as cc t =>
    rw [Expr.mapChildrenM_call]
    have hd : ∀ y ∈ d, y ∈ (Expr.call tgt d x ta as cc t).children := by
      intro y hy; simp [Expr.children, Option.mem_def.1 hy]
    have hx : ∀ y ∈ x, y ∈ (Expr.call tgt d x ta as cc t).children := by
      intro y hy; simp [Expr.children, Option.mem_def.1 hy]
    have ha : ∀ o ∈ as, ∀ y ∈ o, y ∈ (Expr.call tgt d x ta as cc t).children := by
      intro o ho y hy
      simp only [Expr.children, List.mem_append, List.mem_filterMap, id]
      exact .inr ⟨o, ho, hy⟩
    refine Safe.bind_persist (Safe.option d fun y hy => hf y (hd y hy)) (stable_option hR d) hP
      fun d' => ?_
    refine Safe.bind_persist (Safe.option x fun y hy => hf y (hx y hy)) (stable_option hR x) hP
      fun x' => ?_
    refine Safe.bind_persist (Safe.mapM (fun o => stable_option hR o) hP as
      fun o ho => Safe.option o fun y hy => hf y (ha o ho y hy)) ?_ hP fun as' => ?_
    · intro as' s s' hgr h
      exact h.imp fun o o' ho => stable_option hR o o' s s' hgr ho
    refine Safe.pure _ fun s _ has hx' hd' => ⟨?_, ?_, by simp [Expr.fnDecl?]⟩
    · simp [Expr.callShape?, map_eq_of_forall₂ (has.imp fun _ _ h => h.1)]
    intro y hy
    simp only [Expr.children, List.mem_append, List.mem_filterMap, id] at hy
    rcases hy with (hy | hy) | ⟨o', ho', rfl⟩
    · exact hd'.2 y (Option.mem_toList.1 hy)
    · exact hx'.2 y (Option.mem_toList.1 hy)
    · exact forall_mem_of_forall₂ (has.imp fun _ _ h => h.2) _ ho' _ rfl

/-- A step that never stops with an error succeeds. -/
theorem exists_ok {x : m α} {Q : α → σ → Prop} (h : S.Safe (fun _ => True) G I P x Q)
    {s : σ} (hI : I s) (hP : P s) :
    ∃ a s', S.run x s = .ok (a, s') ∧ I s' ∧ G.rel s s' ∧ Q a s' := by
  cases hx : S.run x s with
  | error e => exact absurd trivial (h.2 s e hx hI hP)
  | ok p => exact ⟨p.1, p.2, rfl, h.1 s p.1 p.2 hx hI hP⟩

/-- What a step does under one growth it does under any change at all. -/
theorem any_growth {x : m α} {Q : α → σ → Prop} (hx : S.Safe Bad G I P x Q) :
    S.Safe Bad (Growth.any σ) I P x Q :=
  ⟨fun s a s' h hI hP => by
    obtain ⟨hI', -, hQ⟩ := hx.1 s a s' h hI hP
    exact ⟨hI', trivial, hQ⟩, hx.2⟩

/-- A safe step run from a state it applies to avoids the error, and ends as its triple says. -/
theorem avoids {b : ε} {x : m α} {Q : α → σ → Prop} (hx : S.Safe (· = b) G I P x Q) {s : σ}
    (hI : I s) (hP : P s) : Except.Avoids b (S.run x s) fun p => I p.2 ∧ Q p.1 p.2 :=
  ⟨fun he => hx.2 s b he hI hP rfl, fun p hp => by
    obtain ⟨hI', -, hQ⟩ := hx.1 s p.1 p.2 hp hI hP
    exact ⟨hI', hQ⟩⟩

end Safe

/-! ## Plain triples

A plain triple is a safe step for which no error is bad, so the rules for lists, optional
values, loops and the rebuilding of a node are read back from those of safe steps. -/

namespace Triple

/-- A plain triple is a safe step for which no error is bad. -/
theorem safe {x : m α} {Q : α → σ → Prop} (h : S.Triple G I P x Q) :
    S.Safe (fun _ => False) G I P x Q :=
  Safe.of_triple h fun _ _ _ _ _ h => h

theorem map [LawfulMonad m] {x : m α} {g : α → β} {Q : α → σ → Prop}
    (hx : S.Triple G I P x Q) : S.Triple G I P (g <$> x) fun b s => ∃ a, b = g a ∧ Q a s :=
  (Safe.map hx.safe).triple

/-- A loop whose every iteration keeps the precondition keeps it. -/
theorem forIn [LawfulMonad m] {γ : Type} {f : α → γ → m (ForInStep γ)} (xs : List α) (b : γ)
    (hf : ∀ a ∈ xs, ∀ b, S.Triple G I P (f a b) fun _ s => P s) :
    S.Triple G I P (ForIn.forIn xs b f) fun _ s => P s :=
  (Safe.forIn xs b fun a ha b => (hf a ha b).safe).triple

/-- A loop over a list whose every step keeps the precondition keeps it. -/
theorem forM [LawfulMonad m] {f : α → m PUnit} (xs : List α)
    (hf : ∀ a ∈ xs, S.Triple G I P (f a) fun _ s => P s) :
    S.Triple G I P (xs.forM f) fun _ s => P s :=
  (Safe.forM xs fun a ha => (hf a ha).safe).triple

/-- Mapping a step over a list, each from a persistent precondition: every result satisfies
the stable postcondition of its element's step. -/
theorem mapM [LawfulMonad m] {f : α → m β} {Q : α → β → σ → Prop}
    (hQ : ∀ a, G.Stable (Q a)) (hP : G.Persists P) (xs : List α)
    (hf : ∀ a ∈ xs, S.Triple G I P (f a) (Q a)) :
    S.Triple G I P (xs.mapM f) fun ys s => List.Forall₂ (fun a b => Q a b s) xs ys :=
  (Safe.mapM hQ hP xs fun a ha => (hf a ha).safe).triple

/-- A step applied to an optional value keeps whether there is one. -/
theorem option [LawfulMonad m] {f : α → m β} {R : β → σ → Prop} (o : Option α)
    (hf : ∀ a ∈ o, S.Triple G I P (f a) R) :
    S.Triple G I P (o.mapM f) fun o' s => o'.isSome = o.isSome ∧ ∀ b ∈ o', R b s :=
  (Safe.option o fun a ha => (hf a ha).safe).triple

/-- Rebuilding a node from its children, as a triple that also says what becomes of the
declaration a `fn` node holds. -/
theorem mapChildrenM_fnDecl [LawfulMonad m] {f : Expr → m Expr} {g : DeclId → m DeclId}
    {R : Expr → σ → Prop} {Rg : DeclId → σ → Prop} (e : Expr) (hR : G.Stable R)
    (hP : G.Persists P) (hf : ∀ c ∈ e.children, S.Triple G I P (f c) R)
    (hg : ∀ d ∈ e.fnDecl?, S.Triple G I P (g d) Rg) :
    S.Triple G I P (e.mapChildrenM f g) fun e' s =>
      e'.callShape? = e.callShape? ∧ (∀ c' ∈ e'.children, R c' s) ∧ ∀ d' ∈ e'.fnDecl?, Rg d' s :=
  (Safe.mapChildrenM e hR hP (fun c hc => (hf c hc).safe) fun d hd => (hg d hd).safe).triple

end Triple

end StepSemantics

end ComposeLowering
