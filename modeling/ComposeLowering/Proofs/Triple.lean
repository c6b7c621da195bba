import Mathlib.Data.List.Forall2
import ComposeLowering.Proofs.Arena

/-!
# Hoare triples over a growing state

The passes of the lowering are written in three monads: the composer's transformer reads its
options and keeps a state, and the deep copier and the decoy retargeting keep a state of their
own; all of them can fail. For fixed options each runs as a state monad over `Except`. A
`StepSemantics` records that run with its equations for `pure` and `bind`, and one program logic
then serves all three.

## Triples

`S.Triple G I P x Q` says: run from a state satisfying the invariant `I` and the precondition
`P`, the step `x`, when it succeeds, ends in a state that satisfies `I`, has grown from the start
by `G`, and satisfies `Q` with the result. Growth is a preorder on states; a fact that survives
it (`Growth.Persists`) can be carried past any step. The rules for lists, optional values,
loops and the rebuilding of an expression node from its children need their postconditions to
survive growth too (`Growth.Stable`), so that what was proved of an earlier result still holds
at the end. They are proved once, in `ComposeLowering.Proofs.Safe`, for the triples that also
rule out an error, and read back for plain triples there.
-/

namespace ComposeLowering

/-- How a state may change over a run of steps: a preorder. -/
structure Growth (σ : Type) where
  rel : σ → σ → Prop
  refl : ∀ s, rel s s
  trans : ∀ {s₁ s₂ s₃}, rel s₁ s₂ → rel s₂ s₃ → rel s₁ s₃

namespace Growth

variable {σ α : Type}

/-- Any change at all. -/
def any (σ : Type) : Growth σ := ⟨fun _ _ => True, fun _ => trivial, fun _ _ => trivial⟩

/-- A property of states that survives growth. -/
def Persists (G : Growth σ) (P : σ → Prop) : Prop :=
  ∀ s s', G.rel s s' → P s → P s'

/-- A property of results that survives growth. -/
def Stable (G : Growth σ) (Q : α → σ → Prop) : Prop :=
  ∀ a, G.Persists (Q a)

/-- What does not read the state survives any growth. -/
theorem persists_const (G : Growth σ) (p : Prop) : G.Persists fun _ => p :=
  fun _ _ _ h => h

end Growth

/-- How the steps of a monad run on a state, to a result and a new state or to an error, with
`pure` and `bind` running as in a state monad over `Except`. -/
structure StepSemantics (m : Type → Type) [Monad m] (σ ε : Type) where
  run : {α : Type} → m α → σ → Except ε (α × σ)
  run_pure {α : Type} (a : α) (s : σ) : run (pure a) s = .ok (a, s)
  run_bind {α β : Type} (x : m α) (f : α → m β) (s : σ) :
    run (x >>= f) s = (run x s).bind fun p => run (f p.1) p.2

namespace StepSemantics

variable {m : Type → Type} [Monad m] {σ ε α β : Type} (S : StepSemantics m σ ε)

/-- A sequence that succeeds ran its first step to success and its second from there. -/
theorem bind_ok {x : m α} {f : α → m β} {s s'' : σ} {b : β}
    (h : S.run (x >>= f) s = .ok (b, s'')) :
    ∃ a s', S.run x s = .ok (a, s') ∧ S.run (f a) s' = .ok (b, s'') := by
  rw [S.run_bind] at h
  cases hx : S.run x s with
  | error e => rw [hx] at h; cases h
  | ok p => rw [hx] at h; exact ⟨p.1, p.2, rfl, h⟩

/-- A sequence that fails failed in its first step, or in its second after the first
succeeded. -/
theorem bind_error {x : m α} {f : α → m β} {s : σ} {e : ε} (h : S.run (x >>= f) s = .error e) :
    S.run x s = .error e ∨ ∃ a s', S.run x s = .ok (a, s') ∧ S.run (f a) s' = .error e := by
  rw [S.run_bind] at h
  cases hx : S.run x s with
  | error e' => rw [hx] at h; cases h; exact .inl rfl
  | ok p => rw [hx] at h; exact .inr ⟨p.1, p.2, rfl, h⟩

/-- The step `x`, run from a state satisfying `I` and `P`, ends when it succeeds in a state
satisfying `I` that has grown from the start by `G` and satisfies `Q` with the result. -/
def Triple (G : Growth σ) (I P : σ → Prop) (x : m α) (Q : α → σ → Prop) : Prop :=
  ∀ s a s', S.run x s = .ok (a, s') → I s → P s → I s' ∧ G.rel s s' ∧ Q a s'

variable {S} {G : Growth σ} {I P : σ → Prop}

namespace Triple

theorem pure {Q : α → σ → Prop} (a : α) (h : ∀ s, P s → Q a s) :
    S.Triple G I P (Pure.pure a : m α) Q := by
  intro s b s' hx hI hP
  rw [S.run_pure] at hx
  cases hx
  exact ⟨hI, G.refl s, h s hP⟩

/-- A step that never succeeds keeps everything. -/
theorem of_fails {x : m α} {Q : α → σ → Prop} (h : ∀ s a s', S.run x s ≠ .ok (a, s')) :
    S.Triple G I P x Q :=
  fun s a s' hx => absurd hx (h s a s')

theorem bind {x : m α} {f : α → m β} {Q : α → σ → Prop} {R : β → σ → Prop}
    (hx : S.Triple G I P x Q) (hf : ∀ a, S.Triple G I (Q a) (f a) R) :
    S.Triple G I P (x >>= f) R := by
  intro s b s'' h hI hP
  obtain ⟨a, s', h₁, h₂⟩ := S.bind_ok h
  obtain ⟨hI', hg₁, hQ⟩ := hx s a s' h₁ hI hP
  obtain ⟨hI'', hg₂, hR⟩ := hf a s' b s'' h₂ hI' hQ
  exact ⟨hI'', G.trans hg₁ hg₂, hR⟩

theorem mono {x : m α} {P' : σ → Prop} {Q Q' : α → σ → Prop} (hx : S.Triple G I P x Q)
    (hP : ∀ s, P' s → P s) (hQ : ∀ a s, Q a s → Q' a s) : S.Triple G I P' x Q' := by
  intro s a s' h hI hP'
  obtain ⟨hI', hg, hq⟩ := hx s a s' h hI (hP s hP')
  exact ⟨hI', hg, hQ a s' hq⟩

/-- A persistent fact about the start holds at the end. -/
theorem frame {x : m α} {Q : α → σ → Prop} {R : σ → Prop} (hx : S.Triple G I P x Q)
    (hR : G.Persists R) : S.Triple G I (fun s => P s ∧ R s) x fun a s => Q a s ∧ R s := by
  intro s a s' h hI ⟨hP, hr⟩
  obtain ⟨hI', hg, hq⟩ := hx s a s' h hI hP
  exact ⟨hI', hg, hq, hR s s' hg hr⟩

/-- A persistent precondition still holds at the end. -/
theorem keep {x : m α} {Q : α → σ → Prop} (hx : S.Triple G I P x Q) (hP : G.Persists P) :
    S.Triple G I P x fun a s => Q a s ∧ P s :=
  (hx.frame hP).mono (fun _ h => ⟨h, h⟩) fun _ _ h => h

/-- A precondition that does not read the state may be assumed outright. -/
theorem of_pure_pre {x : m α} {Q : α → σ → Prop} {p : Prop}
    (h : p → S.Triple G I (fun _ => True) x Q) : S.Triple G I (fun _ => p) x Q :=
  fun s a s' hx hI hp => h hp s a s' hx hI trivial

theorem ite {x y : m α} {Q : α → σ → Prop} (c : Prop) [Decidable c]
    (hx : S.Triple G I P x Q) (hy : S.Triple G I P y Q) :
    S.Triple G I P (if c then x else y) Q := by
  split
  · exact hx
  · exact hy

/-- Sequencing where the first step's stable postcondition is still needed at the end, and the
persistent precondition is needed by the second step. -/
theorem bind_persist {x : m α} {f : α → m β} {Q : α → σ → Prop} {R : β → σ → Prop}
    (hx : S.Triple G I P x Q) (hQ : G.Stable Q) (hP : G.Persists P)
    (hf : ∀ a, S.Triple G I P (f a) fun b s => Q a s → R b s) : S.Triple G I P (x >>= f) R := by
  intro s b s'' h hI hp
  obtain ⟨a, s', h₁, h₂⟩ := S.bind_ok h
  obtain ⟨hI', hg₁, hq⟩ := hx s a s' h₁ hI hp
  obtain ⟨hI'', hg₂, hr⟩ := hf a s' b s'' h₂ hI' (hP s s' hg₁ hp)
  exact ⟨hI'', G.trans hg₁ hg₂, hr (hQ a s' s'' hg₂ hq)⟩

end Triple

/-- The postcondition of `Triple.option` survives growth. -/
theorem stable_option {R : β → σ → Prop} (hR : G.Stable R) (o : Option α) :
    G.Stable fun (o' : Option β) s => o'.isSome = o.isSome ∧ ∀ b ∈ o', R b s :=
  fun _ s s' hg h => ⟨h.1, fun b hb => hR b s s' hg (h.2 b hb)⟩

end StepSemantics

/-- A bind over `Except` succeeds exactly when both of its parts do. -/
theorem except_bind_eq_ok {ε α β : Type} {x : Except ε α} {f : α → Except ε β} {b : β} :
    x >>= f = .ok b ↔ ∃ a, x = .ok a ∧ f a = .ok b := by
  cases x <;> simp [bind, Except.bind]

/-- A left fold in `Except` whose every successful step on an element of the list keeps a
property keeps it. -/
theorem foldlM_ok_induction_mem {ε α β : Type} {f : β → α → Except ε β} (P : β → Prop) :
    ∀ (xs : List α), (∀ b a b', a ∈ xs → f b a = .ok b' → P b → P b') →
      ∀ (init r : β), xs.foldlM f init = .ok r → P init → P r
  | [], _, _, _, h, hP => by cases h; exact hP
  | a :: xs, hf, init, r, h, hP => by
    rw [List.foldlM_cons] at h
    cases hb : f init a with
    | error e => rw [hb] at h; cases h
    | ok b =>
      rw [hb] at h
      exact foldlM_ok_induction_mem P xs (fun b' a' b'' ha => hf b' a' b'' (List.mem_cons_of_mem _ ha))
        b r h (hf init a b List.mem_cons_self hb hP)

/-- A left fold in `Except` whose every successful step keeps a property keeps it. -/
theorem foldlM_ok_induction {ε α β : Type} {f : β → α → Except ε β} (P : β → Prop)
    (hf : ∀ b a b', f b a = .ok b' → P b → P b') (xs : List α) :
    ∀ (init r : β), xs.foldlM f init = .ok r → P init → P r :=
  foldlM_ok_induction_mem P xs fun b a b' _ => hf b a b'

namespace Except

variable {ε α β : Type} {b : ε}

/-- `x` does not fail with `b`, and its value, if it has one, satisfies `Q`. -/
def Avoids (b : ε) (x : Except ε α) (Q : α → Prop) : Prop :=
  x ≠ .error b ∧ ∀ a, x = .ok a → Q a

namespace Avoids

theorem pure {Q : α → Prop} {a : α} (h : Q a) : Avoids b (Pure.pure a) Q :=
  ⟨by rintro ⟨⟩, fun _ ha => by cases ha; exact h⟩

/-- Another error is avoided by what stops with it. -/
theorem error {Q : α → Prop} {e : ε} (h : e ≠ b) : Avoids b (.error e) Q :=
  ⟨fun he => h (by cases he; rfl), fun _ ha => by cases ha⟩

theorem mono {x : Except ε α} {Q Q' : α → Prop} (hx : Avoids b x Q) (h : ∀ a, Q a → Q' a) :
    Avoids b x Q' :=
  ⟨hx.1, fun a ha => h a (hx.2 a ha)⟩

theorem bind {x : Except ε α} {f : α → Except ε β} {Q : α → Prop} {R : β → Prop}
    (hx : Avoids b x Q) (hf : ∀ a, Q a → Avoids b (f a) R) : Avoids b (x >>= f) R := by
  cases x with
  | error e => exact error fun he => hx.1 (he ▸ rfl)
  | ok a => exact hf a (hx.2 a rfl)

/-- A left fold whose every step, from a value satisfying `P`, avoids `b` and keeps `P`. -/
theorem foldlM {f : β → α → Except ε β} {P : β → Prop} (hf : ∀ c a, P c → Avoids b (f c a) P) :
    ∀ (xs : List α) (init : β), P init → Avoids b (xs.foldlM f init) P
  | [], _, hP => pure hP
  | a :: xs, init, hP => by
    rw [List.foldlM_cons]
    exact (hf init a hP).bind fun c hc => foldlM hf xs c hc

end Avoids

end Except

theorem forall_mem_of_forall₂ {α β : Type} {R : β → Prop} :
    ∀ {xs : List α} {ys : List β}, List.Forall₂ (fun _ b => R b) xs ys → ∀ b ∈ ys, R b
  | _, _, .nil => fun _ h => nomatch h
  | _, _, .cons hb hrest => by
    intro b' hb'
    rcases List.mem_cons.1 hb' with rfl | hb'
    · exact hb
    · exact forall_mem_of_forall₂ hrest b' hb'

theorem map_eq_of_forall₂ {α β γ : Type} {f : α → γ} {g : β → γ} :
    ∀ {xs : List α} {ys : List β}, List.Forall₂ (fun a b => g b = f a) xs ys → ys.map g = xs.map f
  | _, _, .nil => rfl
  | _, _, .cons h hrest => by
    simp only [List.map_cons, h, map_eq_of_forall₂ hrest]

end ComposeLowering
