import ComposeLowering.Proofs.Copy
import ComposeLowering.Proofs.Safe

/-!
# Deep copies finish and keep a ranking

A deep copy walks the nesting: it copies a declaration, then copies every declaration that its
defaults and body hold with one unit of fuel less. In a module whose nesting is ranked, the walk
from a declaration goes no deeper than its rank, and `Module.deepCopy` starts with one unit more
than the size of the arena, above every rank. So a deep copy never stops with the recursion
limit (`NestRanking.deepCopy_ne_recursionLimit`); its only other fault, a value with no name, is
an answer about the module.

The module a copy returns is ranked again (`NestRanking.deepCopy`). A copy takes the rank of the
declaration it was made from, and the copier records that pair before it copies anything the
declaration holds. The declarations held by the copy are copies of the ones the original holds,
which rank below the original, so they rank below the copy.

## What the argument keeps

`Ranked m ρ s` says of a copy inside `m`, whose nesting `ρ` ranks: the module's own declarations
are untouched; every recorded copy lies past them, made from one declaration; and every `fn` node
holds a declaration of the arena whose source ranks below its holder's source. A state only
`Extends` over a copy: the arena grows, recorded copies stay, and no declaration changes source.
-/

namespace ComposeLowering

namespace CopyState

open StepSemantics

variable {α : Type}

/-! ## Growth and the invariant -/

/-- How the state of a copy changes: the arena grows, recorded copies stay recorded, and no
declaration of the arena changes source. -/
structure Extends (s s' : CopyState) : Prop where
  size_le : s.module.decls.size ≤ s'.module.decls.size
  decls_sub : ∀ p ∈ s.decls, p ∈ s'.decls
  source_eq : ∀ d < s.module.decls.size, copySource s'.decls d = copySource s.decls d

theorem Extends.refl (s : CopyState) : Extends s s :=
  ⟨Nat.le_refl _, fun _ h => h, fun _ _ => rfl⟩

theorem Extends.trans {s₁ s₂ s₃ : CopyState} (h₁ : Extends s₁ s₂) (h₂ : Extends s₂ s₃) :
    Extends s₁ s₃ where
  size_le := Nat.le_trans h₁.size_le h₂.size_le
  decls_sub p hp := h₂.decls_sub p (h₁.decls_sub p hp)
  source_eq d hd := (h₂.source_eq d (Nat.lt_of_lt_of_le hd h₁.size_le)).trans (h₁.source_eq d hd)

/-- Extending as a preorder on the copier's states. -/
def extending : Growth CopyState := ⟨Extends, Extends.refl, Extends.trans⟩

variable {m : Module} {ρ : DeclId → Nat} {s s' : CopyState}

/-- What a copy inside `m`, whose nesting `ρ` ranks, keeps of its state. -/
structure Ranked (m : Module) (ρ : DeclId → Nat) (s : CopyState) : Prop where
  size_ge : m.decls.size ≤ s.module.decls.size
  /-- The module's own declarations are untouched. -/
  decl_eq : ∀ d < m.decls.size, s.module.decl d = m.decl d
  /-- Every copy lies past the module's own declarations and is made from one declaration. -/
  copy_lt : ∀ a b, (a, b) ∈ s.decls → m.decls.size ≤ b ∧ b < s.module.decls.size
  copy_inj : ∀ a a' b, (a, b) ∈ s.decls → (a', b) ∈ s.decls → a = a'
  nested_lt : ∀ x y, s.module.Nests x y → y < s.module.decls.size
  /-- A nested declaration ranks, through its source, below its holder. -/
  ranked : ∀ x y, s.module.Nests x y → ρ (copySource s.decls y) < ρ (copySource s.decls x)

/-- A copy starts from the module itself, with nothing recorded. -/
theorem Ranked.start (h : m.NestRanking ρ) : Ranked m ρ { module := m } where
  size_ge := Nat.le_refl _
  decl_eq _ _ := rfl
  copy_lt _ _ h := by cases h
  copy_inj _ _ _ h := by cases h
  nested_lt := h.nested_lt
  ranked := h.rank_lt

/-- At the end of a copy the sources rank the nesting of the arena. -/
theorem Ranked.nestRanking (hI : Ranked m ρ s) (h : m.NestRanking ρ) :
    s.module.NestRanking fun d => ρ (copySource s.decls d) :=
  ⟨hI.nested_lt, hI.ranked, fun _ => Nat.le_trans (h.rank_le _) hI.size_ge⟩

/-- A step that keeps the arena and the recorded copies keeps the argument. -/
theorem Ranked.of_decls (hI : Ranked m ρ s) (hd : s'.module.decls = s.module.decls)
    (hc : s'.decls = s.decls) : Ranked m ρ s' := by
  have hn : ∀ x y, s'.module.Nests x y ↔ s.module.Nests x y := fun x y => by
    rw [Module.nests_iff, Module.nests_iff, Module.decl_congr _ hd]
  refine ⟨?_, fun d hd' => ?_, fun a b hab => ?_, fun a a' b h₁ h₂ => ?_, fun x y hxy => ?_,
    fun x y hxy => ?_⟩
  · rw [hd]; exact hI.size_ge
  · rw [Module.decl_congr _ hd]; exact hI.decl_eq d hd'
  · rw [hd]; exact hI.copy_lt a b (hc ▸ hab)
  · exact hI.copy_inj a a' b (hc ▸ h₁) (hc ▸ h₂)
  · rw [hd]; exact hI.nested_lt x y ((hn x y).1 hxy)
  · rw [hc]; exact hI.ranked x y ((hn x y).1 hxy)

theorem Extends.of_decls (hd : s'.module.decls = s.module.decls) (hc : s'.decls = s.decls) :
    Extends s s' :=
  ⟨hd ▸ Nat.le_refl _, fun _ h => hc ▸ h, fun _ _ => by rw [hc]⟩

/-- The source of a recorded copy is the declaration it was made from. -/
theorem Ranked.copySource_eq (hI : Ranked m ρ s) {a b : DeclId} (h : (a, b) ∈ s.decls) :
    copySource s.decls b = a :=
  copySource_eq_of_mem (fun a' h' => hI.copy_inj a' a b h' h) h

/-! ## Triples of the copier -/

/-- A step of a copy inside `m`, whose nesting `ρ` ranks, that never stops with the recursion
limit: the triple of `ComposeLowering.Proofs.Safe` over extending states. -/
abbrev Finishes (m : Module) (ρ : DeclId → Nat) (P : CopyState → Prop) (x : M α)
    (Q : α → CopyState → Prop) : Prop :=
  sem.Safe (· = Fault.recursionLimit) extending (Ranked m ρ) P x Q

variable {P : CopyState → Prop}

/-- A step that keeps the arena and the recorded copies, and fails with no recursion limit,
finishes and keeps every precondition that survives extending. -/
theorem finishes_of_decls {x : M α} (hP : extending.Persists P)
    (h : ∀ s a s', x s = .ok (a, s') → s'.module.decls = s.module.decls ∧ s'.decls = s.decls)
    (hne : ∀ s, x s ≠ .error .recursionLimit) : Finishes m ρ P x fun _ s => P s := by
  refine Safe.of_triple (fun s a s' hx hI hs => ?_) fun s e hx _ _ he => ?_
  · obtain ⟨hd, hc⟩ := h s a s' hx
    have hext := Extends.of_decls hd hc
    exact ⟨hI.of_decls hd hc, hext, hP s s' hext hs⟩
  · subst he
    exact hne s hx

/-- Reading the state gives the state the step starts from. -/
theorem finishes_get : Finishes m ρ P get fun t s => t = s ∧ P s := by
  refine Safe.of_run fun s hI hs => ⟨s, s, rfl, hI, Extends.refl s, rfl, hs⟩

theorem finishes_remapTy (hP : extending.Persists P) (t : Ty) :
    Finishes m ρ P (remapTy t) fun _ s => P s :=
  finishes_of_decls hP (fun _ _ _ h => by cases h; exact ⟨rfl, rfl⟩) fun _ h => by cases h

theorem finishes_mapValue (hP : extending.Persists P) (v : ValueId) :
    Finishes m ρ P (mapValue v) fun _ s => P s :=
  finishes_of_decls hP (fun _ _ _ h => by cases h; exact ⟨rfl, rfl⟩) fun _ h => by cases h

theorem finishes_newValue (hP : extending.Persists P) (name : String) :
    Finishes m ρ P (newValue name) fun _ s => P s :=
  finishes_of_decls hP (fun _ _ _ h => by cases h; exact ⟨rfl, rfl⟩) fun _ h => by cases h

theorem finishes_modify_values (hP : extending.Persists P)
    (f : List (ValueId × ValueId) → List (ValueId × ValueId)) :
    Finishes m ρ P (modify fun s => { s with values := f s.values }) fun _ s => P s :=
  finishes_of_decls hP (fun _ _ _ h => by cases h; exact ⟨rfl, rfl⟩) fun _ h => by cases h

/-- A computation that faults with no recursion limit finishes as a step of the copy. -/
theorem finishes_liftExcept (hP : extending.Persists P) {x : Except Fault α}
    (hx : x ≠ .error .recursionLimit) : Finishes m ρ P (liftExcept x) fun _ s => P s := by
  refine finishes_of_decls hP (fun s a s' h => ?_) fun s h => ?_
  · cases x with
    | error e => cases h
    | ok b => cases h; exact ⟨rfl, rfl⟩
  · cases x with
    | error e => exact hx (by cases h; rfl)
    | ok b => cases h

theorem finishes_copyParam (hP : extending.Persists P) (p : Param) :
    Finishes m ρ P (copyParam p) fun _ s => P s := by
  unfold copyParam
  refine Safe.bind (finishes_newValue hP _) fun _ => ?_
  refine Safe.bind (finishes_modify_values hP _) fun _ => ?_
  refine Safe.bind (finishes_remapTy hP _) fun _ => ?_
  refine Safe.bind ((Safe.option p.vararg fun t _ => finishes_remapTy hP t).keep hP) fun _ => ?_
  exact Safe.pure _ fun _ h => h.2

/-! ## Ranks of the declarations a copied expression holds -/

/-- A declaration of the arena whose source ranks below `k`. -/
def Below (ρ : DeclId → Nat) (k : Nat) (d : DeclId) (s : CopyState) : Prop :=
  d < s.module.decls.size ∧ ρ (copySource s.decls d) < k

/-- Every declaration an expression holds is of the arena and its source ranks below `k`. -/
def FnsBelow (ρ : DeclId → Nat) (k : Nat) (e : Expr) (s : CopyState) : Prop :=
  ∀ y ∈ e.nestedFns, Below ρ k y s

theorem stable_below {k : Nat} : extending.Stable (Below ρ k) :=
  fun d _ _ h hd => ⟨Nat.lt_of_lt_of_le hd.1 h.size_le, (h.source_eq d hd.1).symm ▸ hd.2⟩

theorem stable_fnsBelow {k : Nat} : extending.Stable (FnsBelow ρ k) :=
  fun _ _ _ h he y hy => stable_below y _ _ h (he y hy)

theorem FnsBelow.of_parts {k : Nat} {e : Expr} (hown : ∀ y ∈ e.fnDecl?, Below ρ k y s)
    (hchildren : ∀ c ∈ e.children, FnsBelow ρ k c s) : FnsBelow ρ k e s :=
  Expr.forall_nestedFns hown hchildren

theorem FnsBelow.of_leaf {k : Nat} {e : Expr} (hf : e.fnDecl? = none) (hc : e.children = []) :
    FnsBelow ρ k e s := by
  intro y hy
  rw [Expr.nestedFns_of_leaf hf hc] at hy
  cases hy

section Expr

variable {k : Nat} {nested : DeclId → M DeclId}
  (hnested : ∀ y, y < m.decls.size → ρ y < k →
    Finishes m ρ (fun _ => True) (nested y) fun y' s => Below ρ k y' s)
include hnested

/-- Copying an expression whose nested declarations are the module's own and rank below `k`
finishes when copying each of them does, and the copy holds copies ranked below `k`. -/
theorem finishes_copyExpr (e : Expr) :
    Finishes m ρ (fun _ => ∀ y ∈ e.nestedFns, y < m.decls.size ∧ ρ y < k) (copyExpr nested e)
      fun e' s => FnsBelow ρ k e' s := by
  refine Safe.of_pure_pre fun he => ?_
  have htrue : extending.Persists fun _ => True := Growth.persists_const _ True
  have hchild : ∀ c ∈ e.children, Finishes m ρ (fun _ => True) (copyExpr nested c)
      fun c' s => FnsBelow ρ k c' s :=
    fun c hc => (finishes_copyExpr c).mono
      (fun _ _ y hy => he y (Expr.nestedFns_subset_of_mem_children hc hy)) fun _ _ h => h
  -- the children first, and the declaration of a `fn` node by `nested`
  have hchildren := Safe.mapChildrenM (f := copyExpr nested) (g := nested) e stable_fnsBelow htrue
    hchild fun d hd => by
      obtain ⟨hlt, hrank⟩ := he d (Expr.mem_nestedFns.2 (.inl hd))
      exact hnested d hlt hrank
  rw [copyExpr.eq_def]
  dsimp only
  refine Safe.bind (finishes_remapTy htrue _) fun t => ?_
  cases e with
  | get v ty | maskBit v _ ty =>
    exact Safe.bind (finishes_mapValue htrue _) fun _ =>
      Safe.pure _ fun _ _ => FnsBelow.of_leaf rfl rfl
  | set v x ty =>
    refine Safe.bind (finishes_mapValue htrue _) fun _ => ?_
    refine Safe.bind (hchild x (by simp [Expr.children])) fun x' => ?_
    exact Safe.pure _ fun _ hx => FnsBelow.of_parts (by simp [Expr.fnDecl?])
      (by simpa [Expr.children] using hx)
  | letVal v x ty =>
    -- the initial value is copied first; a fresh value for the binding follows
    refine Safe.bind (hchild x (by simp [Expr.children])) fun x' => ?_
    have hx' : extending.Persists (FnsBelow ρ k x') := stable_fnsBelow x'
    refine Safe.bind (finishes_get (P := FnsBelow ρ k x')) fun s₀ => ?_
    refine Safe.bind ((finishes_liftExcept hx' (s₀.module.valueName_ne_recursionLimit v)).mono
      (fun _ h => h.2) fun _ _ h => h) fun _ => ?_
    refine Safe.bind (finishes_newValue hx' _) fun _ => ?_
    refine Safe.bind (finishes_modify_values hx' _) fun _ => ?_
    exact Safe.pure _ fun _ hx => FnsBelow.of_parts (by simp [Expr.fnDecl?])
      (by simpa [Expr.children] using hx)
  | ret r x ty =>
    refine Safe.bind (finishes_get (P := fun _ => True)) fun _ => ?_
    refine Safe.bind ((hchild x (by simp [Expr.children])).mono (fun _ _ => trivial)
      fun _ _ h => h) fun x' => ?_
    exact Safe.pure _ fun _ hx => FnsBelow.of_parts (by simp [Expr.fnDecl?])
      (by simpa [Expr.children] using hx)
  | call tgt d x ta args cc ty =>
    refine Safe.bind hchildren fun e' => ?_
    cases e' with
    | call tgt' d' x' ta' args' cc' ty' =>
      -- a rebuilt call is renamed in its target and type arguments; its children stay
      have hnode : ∀ s tgt'' ta'', FnsBelow ρ k (.call tgt' d' x' ta' args' cc' ty') s →
          FnsBelow ρ k (.call tgt'' d' x' ta'' args' cc' t) s :=
        fun s _ _ h => FnsBelow.of_parts (by simp [Expr.fnDecl?]) fun c hc =>
          fun y hy => h y (Expr.mem_nestedFns.2 (.inr ⟨c, hc, hy⟩))
      have hre : extending.Persists (FnsBelow ρ k (.call tgt' d' x' ta' args' cc' ty')) :=
        stable_fnsBelow _
      have hta : Finishes m ρ (FnsBelow ρ k (.call tgt' d' x' ta' args' cc' ty'))
          (ta'.mapM remapTy) fun _ s => FnsBelow ρ k (.call tgt' d' x' ta' args' cc' ty') s :=
        (Safe.mapM (Q := fun _ _ _ => True) (fun _ _ _ _ _ h => h) hre ta'
          fun ty _ => (finishes_remapTy hre ty).mono (fun _ h => h) fun _ _ _ => trivial).keep
            hre |>.mono (fun _ h => h) fun _ _ h => h.2
      refine Safe.mono (P := FnsBelow ρ k (.call tgt' d' x' ta' args' cc' ty')) ?_
        (fun _ h => FnsBelow.of_parts h.2.2 h.2.1) fun _ _ h => h
      dsimp only
      split
      · refine Safe.bind (finishes_get (P := FnsBelow ρ k _)) fun _ => ?_
        refine Safe.bind (Safe.pure (Q := fun _ s => FnsBelow ρ k _ s) _ fun _ h => h.2) fun _ => ?_
        exact Safe.bind hta fun _ => Safe.pure _ fun s h => hnode s _ _ h
      · refine Safe.bind (Safe.pure (Q := fun _ s => FnsBelow ρ k _ s) _ fun _ h => h) fun _ => ?_
        exact Safe.bind hta fun _ => Safe.pure _ fun s h => hnode s _ _ h
    | _ =>
      exact Safe.pure _ fun _ h => by
        rw [FnsBelow, Expr.nestedFns_withTy]
        exact FnsBelow.of_parts h.2.2 h.2.1
  | _ =>
    refine Safe.bind hchildren fun e' => Safe.pure _ fun _ h => ?_
    rw [FnsBelow, Expr.nestedFns_withTy]
    exact FnsBelow.of_parts h.2.2 h.2.1
termination_by sizeOf e
decreasing_by exact Expr.sizeOf_lt_of_mem_children hc

end Expr

/-! ## Copying a declaration -/

/-- `new` is a declaration of the arena copied from `old`. -/
def Copied (old new : DeclId) (s : CopyState) : Prop :=
  new < s.module.decls.size ∧ copySource s.decls new = old

/-- Allocating a copy of `old` that holds nothing yet, and recording it, keeps the argument. -/
theorem Ranked.register (hI : Ranked m ρ s) {old : DeclId} {x : Decl} (hx : x.owned = []) :
    Ranked m ρ { s with module := (s.module.allocDecl x).1,
                        decls := (old, s.module.decls.size) :: s.decls } := by
  set new := s.module.decls.size
  have hnests : ∀ a b, (s.module.allocDecl x).1.Nests a b → s.module.Nests a b := by
    intro a b h
    rcases Module.nests_allocDecl h with ⟨-, hb⟩ | h
    · simp [Decl.nestedFns_eq_owned, hx] at hb
    · exact h
  have hsrc : ∀ d < new, copySource ((old, new) :: s.decls) d = copySource s.decls d :=
    fun d hd => copySource_cons_of_ne (Nat.ne_of_gt hd)
  have hholder : ∀ a b, s.module.Nests a b → a < new :=
    fun a b h => Nat.lt_of_not_le fun hle => Module.not_nests_of_size_le hle h
  have hsize : (s.module.allocDecl x).1.decls.size = new + 1 := Module.decls_size_allocDecl _ x
  have hne : ∀ a b, (a, b) ∈ s.decls → b ≠ new := fun a b h => Nat.ne_of_lt (hI.copy_lt a b h).2
  refine ⟨?_, fun d hd => ?_, fun a b h => ?_, fun a a' b h h' => ?_, fun a b h => ?_,
    fun a b h => ?_⟩
  · rw [hsize]; exact Nat.le_succ_of_le hI.size_ge
  · rw [Module.decl_allocDecl, if_neg (Nat.ne_of_lt (Nat.lt_of_lt_of_le hd hI.size_ge))]
    exact hI.decl_eq d hd
  · rw [hsize]
    rcases List.mem_cons.1 h with h | h
    · cases h
      exact ⟨hI.size_ge, Nat.lt_succ_self _⟩
    · obtain ⟨hb, hb'⟩ := hI.copy_lt a b h
      exact ⟨hb, Nat.lt_succ_of_lt hb'⟩
  · rcases List.mem_cons.1 h with h | h <;> rcases List.mem_cons.1 h' with h' | h'
    · cases h; cases h'; rfl
    · cases h; exact absurd rfl (hne a' _ h')
    · cases h'; exact absurd rfl (hne a _ h)
    · exact hI.copy_inj a a' b h h'
  · rw [hsize]
    exact Nat.lt_succ_of_lt (hI.nested_lt a b (hnests a b h))
  · have hab := hnests a b h
    dsimp only
    rw [hsrc b (hI.nested_lt a b hab), hsrc a (hholder a b hab)]
    exact hI.ranked a b hab

theorem Extends.register {old : DeclId} {x : Decl} :
    Extends s { s with module := (s.module.allocDecl x).1,
                       decls := (old, s.module.decls.size) :: s.decls } :=
  ⟨by simp, fun _ h => List.mem_cons_of_mem _ h, fun _ hd => copySource_cons_of_ne (Nat.ne_of_gt hd)⟩

/-- Putting into the copy `new` of `old` defaults and a body whose declarations rank below `old`
keeps the argument. -/
theorem Ranked.putExprs (hI : Ranked m ρ s) {old new : DeclId} (hnew : (old, new) ∈ s.decls)
    {xs : DeclExprs} (hdefaults : ∀ o ∈ xs.defaults, ∀ e ∈ o, FnsBelow ρ (ρ old) e s)
    (hbody : ∀ e ∈ xs.body, FnsBelow ρ (ρ old) e s) :
    Ranked m ρ { s with module := s.module.putExprs new xs } := by
  have hsize : (s.module.putExprs new xs).decls.size = s.module.decls.size :=
    Module.decls_size_modifyDecl _ _ _
  have hsrc : copySource s.decls new = old := hI.copySource_eq hnew
  -- a nested declaration of the copy is held by what was put into it
  have hput : ∀ x y, (s.module.putExprs new xs).Nests x y →
      (x = new ∧ Below ρ (ρ old) y s) ∨ s.module.Nests x y := by
    intro x y h
    rcases Module.nests_putExprs h with ⟨rfl, ⟨o, ho, e, he, hy⟩ | ⟨e, he, hy⟩⟩ | h
    · exact .inl ⟨rfl, hdefaults o ho e he y hy⟩
    · exact .inl ⟨rfl, hbody e he y hy⟩
    · exact .inr h
  refine ⟨hsize ▸ hI.size_ge, fun d hd => ?_, fun a b h => hsize ▸ hI.copy_lt a b h, hI.copy_inj,
    fun x y h => ?_, fun x y h => ?_⟩
  · have hne : new ≠ d :=
      Nat.ne_of_gt (Nat.lt_of_lt_of_le hd (hI.copy_lt old new hnew).1)
    simp only [Module.putExprs, Module.decl_modifyDecl, hne, false_and, if_false]
    exact hI.decl_eq d hd
  · rcases hput x y h with ⟨-, hy⟩ | h
    · exact hsize ▸ hy.1
    · exact hsize ▸ hI.nested_lt x y h
  · rcases hput x y h with ⟨rfl, hy⟩ | h
    · exact hsrc ▸ hy.2
    · exact hI.ranked x y h

theorem Extends.putExprs {new : DeclId} {xs : DeclExprs} :
    Extends s { s with module := s.module.putExprs new xs } :=
  ⟨(Module.decls_size_modifyDecl _ _ _).symm ▸ Nat.le_refl _, fun _ h => h, fun _ _ => rfl⟩

variable (h : m.NestRanking ρ)
include h

/-- Copying `old`, read as the module has it, at a fuel above its rank finishes and gives a copy
of it. -/
theorem finishes_copyDecl : ∀ (fuel : Nat) (old : DeclId),
    Finishes m ρ (fun s => ρ old < fuel ∧ s.module.decl old = m.decl old) (copyDecl fuel old)
      fun new s => Copied old new s
  | 0, _ => Safe.of_impossible fun _ hs => Nat.not_lt_zero _ hs.1
  | fuel + 1, old => by
    refine Safe.of_start fun s₀ _ hpre => ?_
    obtain ⟨hfuel, hdecl⟩ := hpre
    have htrue : extending.Persists fun _ => True := Growth.persists_const _ True
    -- what the original holds is the module's own and ranks below it
    have hown : ∀ e ∈ (m.decl old).owned, ∀ y ∈ e.nestedFns, y < m.decls.size ∧ ρ y < ρ old :=
      fun e he y hy => ⟨h.nested_lt old y (Module.nests_iff.2 ⟨e, he, hy⟩),
        h.rank_lt old y (Module.nests_iff.2 ⟨e, he, hy⟩)⟩
    -- each of them is copied at the fuel below, which lies above its rank
    have hnested : ∀ y, y < m.decls.size → ρ y < ρ old → Finishes m ρ (fun _ => True)
        (copyDecl fuel y) fun y' s => Below ρ (ρ old) y' s := fun y hy hr =>
      ((finishes_copyDecl fuel y).of_inv fun s hI _ =>
        ⟨Nat.lt_of_lt_of_le hr (Nat.le_of_lt_succ hfuel), hI.decl_eq y hy⟩).mono
          (fun _ h => h) fun y' s hc => ⟨hc.1, hc.2 ▸ hr⟩
    have hcopy : ∀ e, e ∈ (m.decl old).owned → Finishes m ρ (fun _ => True)
        (copyExpr (copyDecl fuel) e) fun e' s => FnsBelow ρ (ρ old) e' s :=
      fun e he => (finishes_copyExpr hnested e).mono (fun _ _ => hown e he) fun _ _ h => h
    rw [copyDecl]
    refine Safe.bind (finishes_get (P := fun s => s = s₀)) fun t => Safe.of_start fun _ _ ht => ?_
    obtain ⟨rfl, rfl⟩ := ht
    rw [hdecl]
    refine Safe.mono (P := fun _ => True) ?_ (fun _ _ => trivial) fun _ _ h => h
    -- type parameters, receivers and parameters are copied to fresh ones, defaults left out
    refine Safe.bind ((Safe.mapM (Q := fun _ _ _ => True) (fun _ _ _ _ _ h => h) htrue _
      fun _ _ => finishes_of_decls htrue (fun _ _ _ h => by cases h; exact ⟨rfl, rfl⟩)
        fun _ h => by cases h).mono (fun _ h => h) fun _ _ _ => trivial) fun tps => ?_
    refine Safe.bind ((Safe.option _ fun p _ => finishes_copyParam htrue p).mono
      (fun _ h => h) fun _ _ _ => trivial) fun dispatch => ?_
    refine Safe.bind ((Safe.option _ fun p _ => finishes_copyParam htrue p).mono
      (fun _ h => h) fun _ _ _ => trivial) fun extension => ?_
    refine Safe.bind ((Safe.mapM (Q := fun _ _ _ => True) (fun _ _ _ _ _ h => h) htrue _
      fun p _ => finishes_copyParam htrue p).mono (fun _ h => h) fun _ _ _ => trivial)
      fun params => ?_
    refine Safe.bind (finishes_remapTy htrue _) fun returns => ?_
    refine Safe.bind ((Safe.option _ fun t _ => finishes_remapTy htrue t).mono
      (fun _ h => h) fun _ _ _ => trivial) fun inlineArgument => ?_
    -- the copy is allocated and recorded before anything it holds is copied
    refine Safe.bind (finishes_get (P := fun _ => True)) fun s => ?_
    generalize halloc : s.module.allocDecl _ = alloc
    obtain ⟨m', new⟩ := alloc
    have hm' := congrArg Prod.fst halloc.symm
    have hnew := congrArg Prod.snd halloc.symm
    dsimp only at hm' hnew ⊢
    subst hm' hnew
    refine Safe.bind (Q := fun _ s' => (old, s.module.decls.size) ∈ s'.decls) ?_ fun _ => ?_
    · refine Safe.of_run fun s' hI hs => ?_
      obtain ⟨rfl, -⟩ := hs
      refine ⟨(), _, rfl, hI.register ?_, Extends.register, List.mem_cons_self⟩
      simp only [Decl.owned, Option.toList, List.append_nil, List.filterMap_eq_nil_iff]
      -- the parameters' defaults are left out of the copy
      exact fun p hp => by
        obtain ⟨q, -, rfl⟩ := List.mem_map.1 hp
        rfl
    -- the defaults and body of the original are copied and put into the copy
    set new := s.module.decls.size
    have hmem : extending.Persists fun s' => (old, new) ∈ s'.decls :=
      fun _ _ hg h => hg.decls_sub _ h
    refine Safe.bind ((Safe.mapM
      (Q := fun (_ : Param) (o : Option Expr) (s' : CopyState) => ∀ e ∈ o, FnsBelow ρ (ρ old) e s')
      (fun _ _ _ _ hg ho e he => stable_fnsBelow e _ _ hg (ho e he)) hmem _ fun p hp =>
        (Safe.option p.default fun e he => (hcopy e (List.mem_append_left _
          (List.mem_filterMap.2 ⟨p, hp, he⟩))).mono (fun _ _ => trivial) fun _ _ h => h).mono
            (fun _ h => h) fun _ _ h => h.2).keep hmem) fun defaults => ?_
    have hpre : extending.Persists fun s' => List.Forall₂ (fun _ o => ∀ e ∈ o,
        FnsBelow ρ (ρ old) e s') (m.decl old).params defaults ∧ (old, new) ∈ s'.decls :=
      fun _ _ hg h => ⟨h.1.imp fun _ _ ho e he => stable_fnsBelow e _ _ hg (ho e he),
        hg.decls_sub _ h.2⟩
    refine Safe.bind ((Safe.option _ fun e he => (hcopy e (List.mem_append_right _
      (Option.mem_toList.2 he))).mono (fun _ _ => trivial) fun _ _ h => h).keep hpre) fun body => ?_
    refine Safe.bind (Q := fun _ s' => Copied old new s') ?_ fun _ => Safe.pure _ fun _ h => h
    refine Safe.of_run fun s' hI hs => ?_
    obtain ⟨⟨-, hbody⟩, hdefaults, hnew⟩ := hs
    have hI' : Ranked m ρ { s' with module := s'.module.putExprs new ⟨defaults, body⟩ } :=
      hI.putExprs hnew (forall_mem_of_forall₂ hdefaults) hbody
    exact ⟨(), _, rfl, hI', Extends.putExprs, (hI'.copy_lt old new hnew).2, hI'.copySource_eq hnew⟩

end CopyState

namespace Module

variable {m : Module} {ρ : DeclId → Nat}

/-- A deep copy inside a ranked module never stops with the recursion limit, and ends where the
argument holds. -/
theorem NestRanking.copyDecl_run (h : m.NestRanking ρ) (d : DeclId) :
    (CopyState.copyDecl (m.decls.size + 1) d).run { module := m } ≠ .error .recursionLimit ∧
      ∀ new s, (CopyState.copyDecl (m.decls.size + 1) d).run { module := m } = .ok (new, s) →
        CopyState.Ranked m ρ s := by
  have hcopy := CopyState.finishes_copyDecl h (m.decls.size + 1) d
  have hpre : ρ d < m.decls.size + 1 ∧ m.decl d = m.decl d := ⟨Nat.lt_succ_of_le (h.rank_le d), rfl⟩
  refine ⟨fun hrun => hcopy.2 _ _ hrun (CopyState.Ranked.start h) hpre rfl, fun new s hrun => ?_⟩
  exact (hcopy.1 _ new s hrun (CopyState.Ranked.start h) hpre).1

/-- In a ranked module a deep copy never stops with the recursion limit. -/
theorem NestRanking.deepCopy_ne_recursionLimit (h : m.NestRanking ρ) (d : DeclId) :
    m.deepCopy d ≠ .error .recursionLimit := by
  unfold Module.deepCopy
  cases hrun : (CopyState.copyDecl (m.decls.size + 1) d).run { module := m } with
  | error e =>
    rintro ⟨⟩
    exact (h.copyDecl_run d).1 hrun
  | ok r => rintro ⟨⟩

/-- A deep copy of a ranked module returns a ranked module: a copy ranks as the declaration it
was made from. -/
theorem NestRanking.deepCopy {d : DeclId} {r : Module × DeclId} (h : m.NestRanking ρ)
    (hcopy : m.deepCopy d = .ok r) : ∃ ρ', r.1.NestRanking ρ' := by
  unfold Module.deepCopy at hcopy
  cases hrun : (CopyState.copyDecl (m.decls.size + 1) d).run { module := m } with
  | error e => rw [hrun] at hcopy; cases hcopy
  | ok p =>
    obtain ⟨new, s⟩ := p
    rw [hrun] at hcopy
    cases hcopy
    exact ⟨_, ((h.copyDecl_run d).2 new s hrun).nestRanking h⟩

end Module

end ComposeLowering
