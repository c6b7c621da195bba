import ComposeLowering.Lowering.Pipeline
import ComposeLowering.Proofs.Composer.Fuel
import ComposeLowering.Proofs.Composer.Pass

/-!
# The composer pass finishes

The walks of the composer pass take one unit of fuel at every step from one declaration to
another and stop with the recursion limit when it is gone. This file proves that the fuel a run
gives them, `(n + 2) * (n + 3)` for a module of `n` declarations, never runs out when the nesting
of the module has no cycle: `run_finishes`.

## What each walk needs

With `need n s = (unregistered n s + 1) * (n + 3)` from `ComposeLowering.Proofs.Composer.Fuel`,
and the rank `r` of a declaration's source bounding how deep the functions nested in it go:

* `lowerDecl F d` needs `need ≤ F`: it either stops at once or clones, and the clone is
  registered before anything else is lowered, so the fuel it passes on drops by `n + 3` while
  `need` drops by as much;
* a clone walks the defaults and body of a declaration of rank at most `n`, whose nested
  functions rank below it; `bodyNested F fr d` needs `need + 2 + r (sourceOf s d) ≤ F` and each
  function nested deeper needs one unit less;
* `lowerCall F k c` needs `need + 1 ≤ F`, one unit for the callee it lowers.

`Finish n r F` collects these triples at fuel `F`; `finish` proves them at every fuel by
induction, each walk at `F + 1` from the walks at `F`, the way the pass calls them. Along an
expression a walk keeps `FnsBelow`: every function the expression holds ranks below the
declaration being walked, which is what lets the next step take one unit less.
-/

namespace ComposeLowering

namespace Composer

variable {α : Type} {n : Nat} {r : DeclId → Nat} {s : ComposerState}

/-! ## The measure -/

theorem three_le_need (s : ComposerState) : 3 ≤ need n s :=
  Nat.le_trans (Nat.le_add_left 3 n) (Nat.le_mul_of_pos_left _ (Nat.succ_pos _))

/-- No state needs more than a stretch for each declaration of the module and one more. -/
theorem need_le (s : ComposerState) : need n s ≤ (n + 1) * (n + 3) := by
  refine Nat.mul_le_mul_right _ (Nat.succ_le_succ ?_)
  unfold unregistered
  exact Nat.le_trans (Finset.card_filter_le _ _) (Finset.card_range n).le

/-- A declaration of the module that is neither lowered nor cloned is still to clone. -/
theorem one_le_unregistered {d : DeclId} (hd : d < n) (hl : d ∉ s.lowered)
    (hc : s.clones.lookup d = none) : 1 ≤ unregistered n s :=
  Finset.card_pos.2 ⟨d, by simp [hd, hl, hc]⟩

/-! ## Calls -/

/-- A call given new arguments, each one it had or one that holds no declaration, holds no
declaration it did not hold. -/
theorem FnsBelow.rewritten {k : Nat} {c : Call} {t t' : Ty} {target : CallTarget}
    {args : List (Option Expr)} (hc : FnsBelow r k (.ofCall c t) s)
    (hargs : ∀ a ∈ args.filterMap id, a ∈ c.args.filterMap id ∨ a.nestedFns = []) :
    FnsBelow r k (.ofCall { c with target, args, composable := true } t') s := by
  refine FnsBelow.of_parts (by simp [Expr.ofCall, Expr.fnDecl?]) fun a ha => ?_
  rcases Expr.mem_children_rewritten hargs ha with ha | ha
  · exact hc.child ha
  · intro y hy
    rw [ha] at hy
    cases hy

namespace Finishes

variable {P : ComposerState → Prop}

/-- Building the error for a call of the wrong slot count finishes: the call is written with the
functions it holds, which rank below the arena's size. -/
theorem slotMismatch {k : Nat} (hk : k ≤ n) (c : Call) (needed available : Nat) :
    Finishes n r (FnsBelow r k (.ofCall c .unit)) (Composer.slotMismatch c needed available)
      fun e _ => ¬ IsLimit e := by
  refine of_start fun s₀ hI₀ hc => ?_
  unfold Composer.slotMismatch
  refine (getModule_at s₀).bind fun m => of_pure_and fun hm => ?_
  subst hm
  refine (liftFault ?_).bind fun _ => pure _ fun _ _ => nofun
  exact hI₀.nestRanking.dumpExpr_ne_recursionLimit fun y hy =>
    Nat.lt_of_lt_of_le (hc y hy).2 (Nat.le_trans hk hI₀.size_ge)

/-- Appending change words finishes, failing at most with a slot count mismatch. -/
theorem pushChangeWords {k : Nat} (hk : k ≤ n) (c : Call) (owner : Nat) :
    ∀ (j : Nat) (args : List (Option Expr)), Finishes n r (FnsBelow r k (.ofCall c .unit))
      (Composer.pushChangeWords c owner j args) fun _ => FnsBelow r k (.ofCall c .unit)
  | 0, _ => pure _ fun _ h => h
  | j + 1, args => by
    rw [Composer.pushChangeWords]
    exact ite _ ((slotMismatch hk c _ _).bind fun _ => of_pure_pre fun he => throw_bind he)
      (pushChangeWords hk c owner j _)

/-- Appending default masks finishes: a mask that is too wide is another fault. -/
theorem pushDefaultMasks {k : Nat} (hk : k ≤ n) (c : Call) (owner : Nat) (missing : List Bool) :
    ∀ (w j : Nat) (args : List (Option Expr)), Finishes n r (FnsBelow r k (.ofCall c .unit))
      (Composer.pushDefaultMasks c owner missing w j args) fun _ => FnsBelow r k (.ofCall c .unit)
  | _, 0, _ => pure _ fun _ h => h
  | w, j + 1, args => by
    rw [Composer.pushDefaultMasks]
    refine ite _ ?_ (ite _ ((slotMismatch hk c _ _).bind fun _ => of_pure_pre fun he => throw he)
      (pushDefaultMasks hk c owner missing _ j _))
    refine (liftFault ?_).bind fun _ =>
      (pushDefaultMasks hk c owner missing _ j _).mono (fun _ h => h.2) fun _ _ h => h
    unfold Synthetic.bitMask
    split <;> rintro ⟨⟩

/-- Giving a call its composer arguments finishes, and the call holds no declaration it did not
hold: the new arguments are placeholders, the composer and literals. -/
theorem rewriteCall {k : Nat} (hk : k ≤ n) (composer : ValueId) (c : Call) (target : CallTarget)
    (owner receivers : Nat) (hasDefaults : Bool) :
    Finishes n r (FnsBelow r k (.ofCall c .unit))
      (Composer.rewriteCall composer c target owner receivers hasDefaults)
      fun c' => FnsBelow r k (.ofCall c' .unit) := by
  refine of_ok (Q := fun _ _ => True) ?_ fun opts s c' s' h _ hc _ => ?_
  · unfold Composer.rewriteCall
    refine ite _ (throw_bind (by rintro ⟨⟩)) ?_
    refine (getModule.mono (fun _ h => h) fun _ _ h => h.2).bind fun m => ?_
    refine (pushChangeWords hk c owner _ _).bind fun args => ?_
    refine (pushDefaultMasks hk c owner _ 0 _ _).bind fun args => ?_
    refine ite _ ((slotMismatch hk c _ _).bind fun _ => of_pure_pre fun he => throw_bind he) ?_
    exact (countCall fun _ h => h).bind fun _ => pure _ fun _ _ => trivial
  · obtain ⟨rfl, rfl, -, -⟩ := rewriteCall_ok h
    refine FnsBelow.rewritten hc fun a ha => ?_
    simp only [List.filterMap_append, List.mem_append] at ha
    rcases ha with ((ha | ha) | ha) | ha
    · refine (mem_filledArgs_or_placeholder ha).imp_right fun hp => Expr.nestedFns_eq_nil ?_
      obtain ⟨_, hp⟩ := hp
      exact defaultArgumentFor_all (fun _ _ => rfl) (fun _ _ => rfl) (fun _ _ => rfl) hp
    · obtain ⟨o, ho, rfl⟩ := List.mem_filterMap.1 ha
      cases List.mem_singleton.1 ho
      exact .inr (Expr.nestedFns_of_leaf rfl rfl)
    · obtain ⟨o, ho, rfl⟩ := List.mem_filterMap.1 ha
      cases List.eq_of_mem_replicate ho
      exact .inr (Expr.nestedFns_of_leaf rfl rfl)
    · obtain ⟨o, ho, rfl⟩ := List.mem_filterMap.1 ha
      obtain ⟨i, -, hi⟩ := List.mem_map.1 ho
      cases hi
      exact .inr (Expr.nestedFns_of_leaf rfl rfl)

/-- Finding the target of a call finishes when lowering its callee does. -/
theorem targetShape {lower : DeclId → M DeclId} (hP : advancing.Persists P)
    (hlower : ∀ d, Finishes n r P (lower d) fun _ _ => True) (c : Call) :
    Finishes n r P (Composer.targetShape lower c) fun _ s => P s := by
  unfold Composer.targetShape
  split
  · dsimp only
    refine ite _ ((liftFault ?_).bind fun _ => pure _ fun _ h => h.2) (pure _ fun _ h => h)
    unfold Synthetic.checkedInvokeSlots
    split
    · nofun
    · split <;> nofun
  · refine (getModule.mono (fun _ h => h) fun _ _ h => h.2).bind fun m => ?_
    refine ite _ (pure _ fun _ h => h) ?_
    refine (((hlower _).keep hP).mono (fun _ h => h) fun _ _ h => h.2).bind fun owner => ?_
    refine (get.mono (fun _ h => h) fun _ _ h => h.2).bind fun st => ?_
    exact ite _ (pure _ fun _ h => h) (pure _ fun _ h => h)
  · exact pure _ fun _ h => h

end Finishes

/-! ## Expressions -/

/-- The prologue of a clone's body holds no declaration of its own. -/
theorem FnsBelow.defaultPrologue {k : Nat} (d : Decl) {defaults : List (Option Expr)}
    (words : List ValueId) {b : Expr} (hdefaults : ∀ o ∈ defaults, ∀ e ∈ o, FnsBelow r k e s)
    (hb : FnsBelow r k b s) : FnsBelow r k (Composer.defaultPrologue d defaults words b) s := by
  have hnode : ∀ x : Expr, x.fnDecl? = none → ∀ y ∈ x.fnDecl?, DeclBelow r k y s :=
    fun x hx y hy => by rw [hx] at hy; cases hy
  exact Expr.forall_nestedFns_iff_all.2 (all_defaultPrologue_of (fun _ _ _ _ => hnode _ rfl)
    (fun _ _ _ => hnode _ rfl) (fun _ _ _ => hnode _ rfl) (fun _ _ => hnode _ rfl) d words
    (fun o ho e he => Expr.forall_nestedFns_iff_all.1 (hdefaults o ho e he))
    (Expr.forall_nestedFns_iff_all.1 hb))

namespace Finishes

variable {P : ComposerState → Prop}

/-- Putting defaults and a body back into a declaration finishes when every declaration they hold
ranks, through its source, below the declaration's own source. -/
theorem putExprs {d : DeclId} {xs : DeclExprs} {Q : Unit → ComposerState → Prop}
    (h : ∀ s, Bounded n r s → P s →
      ((∀ o ∈ xs.defaults, ∀ e ∈ o, FnsBelow r (r (sourceOf s d)) e s) ∧
        ∀ e ∈ xs.body, FnsBelow r (r (sourceOf s d)) e s) ∧
      Q () { s with module := s.module.putExprs d xs }) :
    Finishes n r P (Composer.modifyModule fun m => m.putExprs d xs) Q := by
  refine editModule fun s hI hs => ⟨by simp [Module.putExprs], fun x y hn => ?_, (h s hI hs).2⟩
  rcases Module.nests_putExprs hn with ⟨rfl, hy⟩ | hn
  · rcases hy with ⟨o, ho, e, he, hy⟩ | ⟨e, he, hy⟩
    · exact (h s hI hs).1.1 o ho e he y hy
    · exact (h s hI hs).1.2 e he y hy
  · exact ⟨hI.nested_lt x y hn, hI.ranked x y hn⟩

/-- Taking out the defaults and body of a declaration, lowering them by `f` and putting them back
finishes when `f` keeps what they hold ranked below `k`, the rank of the declaration's source. -/
theorem mapExprs {f : Expr → M Expr} {k : Nat} (hP : advancing.Persists P) (d : DeclId)
    (hf : ∀ e, Finishes n r (fun s => P s ∧ FnsBelow r k e s) (f e) fun e' => FnsBelow r k e') :
    Finishes n r (fun s => P s ∧ (d < s.module.decls.size → r (sourceOf s d) = k))
      (Composer.mapExprs f d) fun _ s => P s := by
  refine of_start fun s₀ hI₀ hpre => ?_
  obtain ⟨hP₀, hk⟩ := hpre
  have hown : ∀ e ∈ (s₀.module.decl d).owned, FnsBelow r k e s₀ := by
    intro e he
    by_cases hd : d < s₀.module.decls.size
    · exact hk hd ▸ hI₀.fnsBelow_owned he
    · rw [Module.decl_of_size_le (Nat.le_of_not_lt hd)] at he
      cases he
  -- what the run keeps: the precondition and the start it advanced from
  have hkeep : advancing.Persists fun s => P s ∧ Advances s₀ s :=
    fun _ _ h hs => ⟨hP _ _ h hs.1, hs.2.trans h⟩
  unfold Composer.mapExprs
  refine (getModule_at s₀).bind fun m => of_pure_and fun hm => ?_
  subst hm
  dsimp only
  rw [Module.takeExprs_snd]
  have hsize₁ : (s₀.module.takeExprs d).1.decls.size = s₀.module.decls.size := by
    simp [Module.takeExprs_fst]
  -- the defaults and the body are taken out: nothing new is nested
  refine (editModule (Q := fun _ s => P s ∧ Advances s₀ s) fun s _ hs => ?_).bind fun _ => ?_
  · subst hs
    refine ⟨hsize₁, fun x y h => ?_, hP _ _ (Advances.withModule hsize₁) hP₀,
      Advances.withModule hsize₁⟩
    have h := (Module.nests_takeExprs h).2
    exact ⟨hI₀.nested_lt x y h, hI₀.ranked x y h⟩
  -- each is lowered by the walk
  have hwalk : ∀ e ∈ (s₀.module.decl d).owned, Finishes n r (fun s => P s ∧ Advances s₀ s) (f e)
      fun e' => FnsBelow r k e' := fun e he =>
    (hf e).mono (fun s hs => ⟨hs.1, stable_fnsBelow e _ _ hs.2 (hown e he)⟩) fun _ _ h => h
  refine ((Finishes.mapM (Q := fun _ o s => ∀ e ∈ o, FnsBelow r k e s)
    (fun _ o _ _ h ho e he => stable_fnsBelow e _ _ h (ho e he)) hkeep _ fun o ho =>
      (option o fun e he => hwalk e ?_).mono (fun _ h => h) fun _ _ h => h.2).keep hkeep).bind
    fun defaults => ?_
  · obtain ⟨p, hp, rfl⟩ := List.mem_map.1 ho
    exact List.mem_append_left _ (List.mem_filterMap.2 ⟨p, hp, he⟩)
  dsimp only
  have hdefaults : advancing.Persists fun s => List.Forall₂ (fun _ o => ∀ e ∈ o, FnsBelow r k e s)
      ((s₀.module.decl d).params.map (·.default)) defaults :=
    fun _ _ h hs => hs.imp fun _ _ ho e he => stable_fnsBelow e _ _ h (ho e he)
  refine ((((option _ fun e he => hwalk e ?_).keep hkeep).frame hdefaults).mono
    (fun _ h => ⟨h.2, h.1⟩) fun _ _ h => h).bind fun body => ?_
  · exact List.mem_append_right _ (Option.mem_toList.2 he)
  -- the lowered defaults and body are put back, nesting only declarations ranked below
  refine putExprs fun s _ hs => ?_
  obtain ⟨⟨⟨hsome, hbody⟩, hPs, hadv⟩, hdefs⟩ := hs
  refine ⟨?_, hP _ _ (Advances.withModule (by simp [Module.putExprs])) hPs⟩
  by_cases hd : d < s₀.module.decls.size
  · rw [hadv.source_eq d hd, hk hd]
    exact ⟨forall_mem_of_forall₂ hdefs, hbody⟩
  · -- nothing was taken out, so nothing is put back
    have hempty : (s₀.module.decl d).params = [] ∧ (s₀.module.decl d).body = none := by
      rw [Module.decl_of_size_le (Nat.le_of_not_lt hd)]
      exact ⟨rfl, rfl⟩
    rw [hempty.1, List.map_nil, List.forall₂_nil_left_iff] at hdefs
    rw [hempty.2] at hsome
    refine ⟨fun o ho => (by rw [hdefs] at ho; cases ho), fun e he => ?_⟩
    obtain rfl : body = some e := he
    cases hsome

section Rewrite

variable {k : Nat} {onCall : Call → M Call} {onNested : DeclId → M DeclId}
  (hP : advancing.Persists P)
  (hcall : ∀ c, Finishes n r (fun s => P s ∧ FnsBelow r k (.ofCall c .unit) s) (onCall c)
    fun c' => FnsBelow r k (.ofCall c' .unit))
  (hnested : ∀ d, Finishes n r (fun s => P s ∧ DeclBelow r k d s) (onNested d)
    fun d' => DeclBelow r k d')
include hP hcall hnested

/-- Lowering an expression, children first, finishes and keeps it ranked below `k` when the walks
it hands its calls and nested functions to do. -/
theorem rewriteExpr (fr : BodyFrame) (e : Expr) :
    Finishes n r (fun s => P s ∧ FnsBelow r k e s) (Composer.rewriteExpr onCall onNested fr e)
      fun e' => FnsBelow r k e' := by
  have hpre : advancing.Persists fun s => P s ∧ FnsBelow r k e s :=
    fun s s' h hs => ⟨hP s s' h hs.1, stable_fnsBelow e s s' h hs.2⟩
  have hchildren := mapChildrenM (f := Composer.rewriteExpr onCall onNested fr) (g := onNested) e
    stable_fnsBelow hpre
    (fun c hc => (rewriteExpr fr c).mono (fun _ hs => ⟨hs.1, hs.2.child hc⟩) fun _ _ h => h)
    (fun d hd => (hnested d).mono (fun _ hs => ⟨hs.1, hs.2 d (Expr.mem_nestedFns.2 (.inl hd))⟩)
      fun _ _ h => h)
  rw [Composer.rewriteExpr]
  refine bind (hchildren.keep hpre) fun e' => ?_
  split
  · exact pure _ fun _ _ => fun y hy => by simp [Expr.nestedFns_eq, Expr.fnDecl?, Expr.children] at hy
  · exact pure _ fun _ h => FnsBelow.of_parts (by simp [Expr.fnDecl?]) h.1.2.1
  · exact pure _ fun _ h => FnsBelow.of_parts (by simp [Expr.fnDecl?]) h.1.2.1
  · split
    · exact pure _ fun _ h => FnsBelow.of_parts h.1.2.2 h.1.2.1
    · refine bind ((hcall _).mono (fun _ h => ⟨h.2.1, FnsBelow.of_parts (by simp [Expr.ofCall, Expr.fnDecl?]) h.1.2.1⟩)
        fun _ _ h => h) fun c' => pure _ fun _ hc' => ?_
      exact FnsBelow.of_parts (by simp [Expr.ofCall, Expr.fnDecl?]) fun c hc => hc'.child hc
  · exact pure _ fun _ h => FnsBelow.of_parts h.1.2.2 h.1.2.1
termination_by sizeOf e
decreasing_by exact Expr.sizeOf_lt_of_mem_children hc

end Rewrite

/-- Replacing the functions nested in an expression by `g` finishes and keeps it ranked below `k`
when `g` keeps each of them so. -/
theorem mapNestedM {g : DeclId → M DeclId} {k : Nat} (hP : advancing.Persists P)
    (hg : ∀ y, Finishes n r (fun s => P s ∧ DeclBelow r k y s) (g y) fun y' => DeclBelow r k y')
    (e : Expr) :
    Finishes n r (fun s => P s ∧ FnsBelow r k e s) (e.mapNestedM g) fun e' => FnsBelow r k e' := by
  have hpre : advancing.Persists fun s => P s ∧ FnsBelow r k e s :=
    fun s s' h hs => ⟨hP s s' h hs.1, stable_fnsBelow e s s' h hs.2⟩
  rw [Expr.mapNestedM]
  have hchildren := mapChildrenM (f := Expr.mapNestedM g) (g := g) e stable_fnsBelow hpre
    (fun c hc => (mapNestedM hP hg c).mono (fun _ hs => ⟨hs.1, hs.2.child hc⟩) fun _ _ h => h)
    (fun d hd => (hg d).mono (fun _ hs => ⟨hs.1, hs.2 d (Expr.mem_nestedFns.2 (.inl hd))⟩)
      fun _ _ h => h)
  exact hchildren.mono (fun _ h => h) fun _ _ h => FnsBelow.of_parts h.2.2 h.2.1
termination_by sizeOf e
decreasing_by exact Expr.sizeOf_lt_of_mem_children hc

/-! ## The walks -/

/-- Finding the lowered form of a declaration finishes with `need ≤ F`: it stops at once, or the
declaration is one of the module's own still to clone and cloning it finishes at the fuel
below. -/
theorem lowerDecl {F : Nat}
    (hclone : ∀ F', F = F' + 1 → ∀ d, Finishes n r
      (fun s => need n s ≤ F' + 1 ∧ d < n ∧ d ∉ s.lowered ∧ s.clones.lookup d = none)
      (cloneWithComposer F' d) fun d' s => (d, d') ∈ s.clones) (d : DeclId) :
    Finishes n r (fun s => need n s ≤ F) (Composer.lowerDecl F d)
      fun d' s => d' = d ∨ (d, d') ∈ s.clones := by
  refine of_start fun s₀ hI₀ hneed => ?_
  rw [Composer.lowerDecl.eq_def]
  refine (get_at s₀).bind fun t => of_pure_and fun ht => ?_
  subst ht
  dsimp only
  split
  · exact pure _ fun _ _ => .inl rfl
  next hlow =>
  split
  · exact pure _ fun _ _ => .inl rfl
  next hmarked =>
  split
  · exact pure _ fun _ _ => .inl rfl
  split
  · exact pure _ fun _ _ => .inl rfl
  split
  · next done hdone => exact pure _ fun s hs => .inr (hs ▸ mem_of_lookup_eq_some hdone)
  next hnone =>
  split
  · exact of_run fun _ s hI hs => by
      subst hs
      exact ⟨d, _, rfl, hI.markLowered d, Advances.markLowered d, .inl rfl⟩
  split
  · exact of_impossible fun _ _ => by have := three_le_need (n := n) t; omega
  next F' =>
  -- the declaration is one of the module's own, still to clone
  have hl : d ∉ t.lowered := by simpa using hlow
  have hsize : d < t.module.decls.size := lt_of_isMarkedComposable (by simpa using hmarked)
  have hd : d < n := Nat.lt_of_not_le fun hn => hl (hI₀.new_clone d hn hsize).1
  have hc : t.clones.lookup d = none := Option.eq_none_iff_forall_ne_some.2 hnone
  exact (hclone F' rfl d).mono (fun s hs => hs ▸ ⟨hneed, hd, hl, hc⟩) fun _ _ h => .inr h

end Finishes

/-- What each walk of the pass needs of its fuel, and what it promises, in a module of `n`
declarations ranked by `r`. -/
structure Finish (n : Nat) (r : DeclId → Nat) (F : Nat) : Prop where
  lowerDecl : ∀ d, Finishes n r (fun s => need n s ≤ F) (Composer.lowerDecl F d)
    fun d' s => d' = d ∨ (d, d') ∈ s.clones
  clone : ∀ d, Finishes n r
    (fun s => need n s ≤ F + 1 ∧ d < n ∧ d ∉ s.lowered ∧ s.clones.lookup d = none)
    (cloneWithComposer F d) fun d' s => (d, d') ∈ s.clones
  lowerCall : ∀ k composer c, k ≤ n → Finishes n r
    (fun s => need n s + 1 ≤ F ∧ FnsBelow r k (.ofCall c .unit) s) (Composer.lowerCall F composer c)
    fun c' => FnsBelow r k (.ofCall c' .unit)
  bodyNested : ∀ fr d, Finishes n r
    (fun s => need n s + 2 + r (sourceOf s d) ≤ F ∧ d < s.module.decls.size)
    (Composer.bodyNested F fr d) fun d' _ => d' = d

namespace Finishes

variable {P : ComposerState → Prop}

/-- Cloning a declaration still to clone finishes: the clone is registered first, which frees
`n + 3` units of fuel, one for each step into the functions nested in the declaration and for
the calls of its defaults and body. -/
theorem clone {F : Nat} (ih : Finish n r F) (old : DeclId) :
    Finishes n r (fun s => need n s ≤ F + 2 ∧ old < n ∧ old ∉ s.lowered ∧ s.clones.lookup old = none)
      (cloneWithComposer (F + 1) old) fun d' s => (old, d') ∈ s.clones := by
  refine of_start fun s₀ hI₀ hpre => ?_
  obtain ⟨hneed, hold, hl, hc⟩ := hpre
  have hun := one_le_unregistered (n := n) hold hl hc
  have hF : 2 * (n + 3) ≤ F + 2 := by
    refine Nat.le_trans ?_ hneed
    unfold need
    exact Nat.mul_le_mul_right _ (Nat.succ_le_succ hun)
  have hrank : r old ≤ n := hI₀.rank_le old
  rw [cloneWithComposer]
  refine Finishes.bind (allocClone (P := fun _ => True) (F := F + 2 - (n + 3)) (fun _ _ _ h => h)
    |>.mono (fun s hs => hs ▸ ⟨trivial, by omega, hold, hl, hc⟩) fun _ _ h => h.2) fun cl => ?_
  -- what holds from the clone's registration on
  have hR : advancing.Persists fun s => need n s ≤ F + 2 - (n + 3) ∧ (old, cl.new) ∈ s.clones ∧
      (∀ o ∈ cl.defaults, ∀ e ∈ o, FnsBelow r (r old) e s) ∧
      ∀ e ∈ cl.source.body, FnsBelow r (r old) e s :=
    fun _ _ h hs => ⟨Nat.le_trans h.need_le hs.1, h.clones_sub _ hs.2.1,
      fun o ho e he => stable_fnsBelow e _ _ h (hs.2.2.1 o ho e he),
      fun e he => stable_fnsBelow e _ _ h (hs.2.2.2 e he)⟩
  -- the overrides are lowered first, then set; the clone owns nothing yet
  refine ((Finishes.mapM (Q := fun _ _ _ => True) (fun _ _ _ _ _ _ => trivial) hR _
    fun d _ => (ih.lowerDecl d).mono (fun s hs => by omega) fun _ _ _ => trivial).keep hR
    |>.mono (fun _ h => h) fun _ _ h => h.2).bind fun overrides => ?_
  refine Finishes.bind (Q := fun _ s => need n s ≤ F + 2 - (n + 3) ∧ (old, cl.new) ∈ s.clones ∧
      (∀ o ∈ cl.defaults, ∀ e ∈ o, FnsBelow r (r old) e s) ∧
      ∀ e ∈ cl.source.body, FnsBelow r (r old) e s) ?_ fun _ => ?_
  · exact modifyModule hR (fun _ => Module.decls_size_modifyDecl _ _ _) fun _ _ _ h =>
      Module.nests_modifyDecl_of_owned (f := fun x => { x with overrides }) (fun _ => rfl) h
  dsimp only
  -- the defaults and the body are walked with the clone's composer, nesting stays below `old`
  have hwalk : ∀ e, Finishes n r (fun s => need n s ≤ F + 2 - (n + 3) ∧ FnsBelow r (r old) e s)
      (Composer.rewriteExpr (lowerCall F cl.composer)
        (bodyNested F { old, new := cl.new, values := cl.values, composer := cl.composer,
                        nested := false })
        { old, new := cl.new, values := cl.values, composer := cl.composer, nested := false } e)
      fun e' => FnsBelow r (r old) e' :=
    rewriteExpr (fun _ _ h hs => Nat.le_trans h.need_le hs)
      (fun c => (ih.lowerCall (r old) cl.composer c hrank).mono (fun _ hs => ⟨by omega, hs.2⟩)
        fun _ _ h => h)
      (fun d => ((ih.bodyNested _ d).frame (stable_declBelow d)).mono
        (fun _ hs => ⟨⟨by have := hs.2.2; omega, hs.2.1⟩, hs.2⟩) fun _ _ h => h.1 ▸ h.2) _
  refine ((Finishes.mapM (Q := fun _ o s => ∀ e ∈ o, FnsBelow r (r old) e s)
    (fun _ o _ _ h ho e he => stable_fnsBelow e _ _ h (ho e he)) hR _ fun o ho =>
      (option o fun e he => (hwalk e).mono (fun _ hs => ⟨hs.1, hs.2.2.1 o ho e he⟩)
        fun _ _ h => h).mono (fun _ h => h) fun _ _ h => h.2).keep hR).bind fun defaults' => ?_
  have hdefaults : advancing.Persists fun s =>
      List.Forall₂ (fun _ o => ∀ e ∈ o, FnsBelow r (r old) e s) cl.defaults defaults' :=
    fun _ _ h hs => hs.imp fun _ _ ho e he => stable_fnsBelow e _ _ h (ho e he)
  refine ((((option _ fun e he => (hwalk e).mono (fun _ hs => ⟨hs.1, hs.2.2.2 e he⟩)
    fun _ _ h => h).keep hR).frame hdefaults).mono (fun _ h => ⟨h.2, h.1⟩) fun _ _ h => h).bind
    fun body => ?_
  refine read.bind fun opts => getModule.bind fun m => ?_
  -- the lowered defaults and body are put back into the clone, ranked below its source
  refine (putExprs (Q := fun _ s => (old, cl.new) ∈ s.clones) fun s hI hs => ?_).bind
    fun _ => pure _ fun _ h => h
  obtain ⟨-, ⟨⟨-, hbody⟩, -, hnew, -⟩, hdefs⟩ := hs
  rw [hI.sourceOf_clone hnew]
  refine ⟨⟨forall_mem_of_forall₂ hdefs, fun e he => ?_⟩, hnew⟩
  obtain ⟨b, hb, rfl⟩ := Option.map_eq_some_iff.1 he
  split
  · exact FnsBelow.defaultPrologue _ _ (forall_mem_of_forall₂ hdefs) (hbody b hb)
  · exact hbody b hb

/-- Lowering a call finishes with one unit above what its callee needs. -/
theorem lowerCall {F : Nat} (ih : Finish n r F) {k : Nat} (hk : k ≤ n) (composer : ValueId)
    (c : Call) :
    Finishes n r (fun s => need n s + 1 ≤ F + 1 ∧ FnsBelow r k (.ofCall c .unit) s)
      (Composer.lowerCall (F + 1) composer c) fun c' => FnsBelow r k (.ofCall c' .unit) := by
  have hpre : advancing.Persists fun s => need n s + 1 ≤ F + 1 ∧ FnsBelow r k (.ofCall c .unit) s :=
    fun _ _ h hs => ⟨Nat.le_trans (Nat.add_le_add_right h.need_le 1) hs.1,
      stable_fnsBelow _ _ _ h hs.2⟩
  rw [Composer.lowerCall]
  refine ite _ (pure _ fun _ h => h.2) ?_
  refine (targetShape hpre (fun d => (ih.lowerDecl d).mono (fun _ hs => by omega)
    fun _ _ _ => trivial) c).bind fun shape => ?_
  split
  · exact pure _ fun _ h => h.2
  · exact (rewriteCall hk composer c _ _ _ _).mono (fun _ h => h.2) fun _ _ h => h

/-- Lowering a nested function in place finishes with two units above what its source's rank
needs: the functions nested in it rank below it. -/
theorem bodyNested {F : Nat} (ih : Finish n r F) (fr : BodyFrame) (d : DeclId) :
    Finishes n r (fun s => need n s + 2 + r (sourceOf s d) ≤ F + 1 ∧ d < s.module.decls.size)
      (Composer.bodyNested (F + 1) fr d) fun d' _ => d' = d := by
  refine of_start fun s₀ hI₀ hpre => ?_
  have hk := hI₀.rank_le (sourceOf s₀ d)
  rw [Composer.bodyNested]
  refine (getModule_at s₀).bind fun m => of_pure_and fun hm => ?_
  subst hm
  dsimp only
  refine Finishes.bind (Q := fun _ _ => True) ?_ fun _ => pure _ fun _ _ => rfl
  refine (mapExprs (P := fun s => need n s + 1 + r (sourceOf s₀ d) ≤ F)
    (fun _ _ h hs => Nat.le_trans (Nat.add_le_add_right (Nat.add_le_add_right h.need_le 1) _) hs)
    d fun e => rewriteExpr (fun _ _ h hs => Nat.le_trans (Nat.add_le_add_right
      (Nat.add_le_add_right h.need_le 1) _) hs)
      (fun c => (ih.lowerCall _ _ c hk).mono (fun _ hs => ⟨by omega, hs.2⟩) fun _ _ h => h)
      (fun y => ((ih.bodyNested _ y).frame (stable_declBelow y)).mono
        (fun _ hs => ⟨⟨by have := hs.2.2; omega, hs.2.1⟩, hs.2⟩) fun _ _ h => h.1 ▸ h.2) _ e).mono
    (fun s hs => by subst hs; exact ⟨by omega, fun _ => rfl⟩) fun _ _ _ => trivial

end Finishes

/-- At no fuel every walk is given more than it needs: the precondition cannot hold. -/
theorem finish_zero : Finish n r 0 where
  lowerDecl := Finishes.lowerDecl fun _ h => absurd h (Nat.succ_ne_zero _).symm
  clone _ := Finishes.of_impossible fun s hs => by have := three_le_need (n := n) s; omega
  lowerCall _ _ _ _ := Finishes.of_impossible fun s hs => by have := three_le_need (n := n) s; omega
  bodyNested _ _ := Finishes.of_impossible fun s hs => by have := three_le_need (n := n) s; omega

/-- Each walk at `F + 1` finishes when the walks at `F` do. -/
theorem Finish.succ {F : Nat} (ih : Finish n r F) : Finish n r (F + 1) where
  lowerDecl := Finishes.lowerDecl fun F' h d => by
    cases Nat.succ.inj h
    exact ih.clone d
  clone := Finishes.clone ih
  lowerCall _ composer c hk := Finishes.lowerCall ih hk composer c
  bodyNested := Finishes.bodyNested ih

/-- Every walk finishes at every fuel, given the fuel it needs. -/
theorem finish : ∀ F, Finish n r F
  | 0 => finish_zero
  | F + 1 => (finish F).succ

/-! ## A run -/

/-- The clone of a declaration ranked below `k` is ranked below `k`. -/
theorem Bounded.declBelow_clone (hI : Bounded n r s) {k : Nat} {y y' : DeclId}
    (hy : DeclBelow r k y s) (hc : (y, y') ∈ s.clones) : DeclBelow r k y' s := by
  obtain ⟨hyn, -, hy'⟩ := hI.clone_lt y y' hc
  refine ⟨hy', ?_⟩
  rw [hI.sourceOf_clone hc]
  simpa [hI.sourceOf_of_lt hyn] using hy.2

/-- A declaration past the arena is left as it is. -/
theorem lowerDecl_of_size_le {F : Nat} {d : DeclId} {opts : LowerOptions} {s : ComposerState}
    (h : s.module.decls.size ≤ d) : Composer.lowerDecl F d opts s = .ok (d, s) := by
  have hx : (s.module.decl d).isMarkedComposable = false := by
    rw [Module.decl_of_size_le h]
    rfl
  rw [Composer.lowerDecl.eq_def, run_bind, run_get]
  dsimp only [Except.bind]
  split
  · rfl
  · rw [if_pos (by simp [hx])]
    rfl

namespace Finishes

variable {P : ComposerState → Prop}

/-- Visiting a declaration and the functions nested in it finishes with `need` and the rank of
its source below the fuel. -/
theorem visitDecl : ∀ F d, Finishes n r (fun s => need n s + r (sourceOf s d) + 1 ≤ F)
    (Composer.visitDecl F d) fun d' s => d' = d ∨ (d, d') ∈ s.clones
  | 0, _ => of_impossible fun s _ => by have := three_le_need (n := n) s; omega
  | F + 1, d => by
    refine of_start fun s₀ hI₀ hpre => ?_
    rw [Composer.visitDecl]
    -- the nested functions are visited below the rank of the declaration's source
    have hP : advancing.Persists fun s => need n s + r (sourceOf s₀ d) ≤ F :=
      fun _ _ h hs => Nat.le_trans (Nat.add_le_add_right h.need_le _) hs
    have hwalk : ∀ e, Finishes n r
        (fun s => need n s + r (sourceOf s₀ d) ≤ F ∧ FnsBelow r (r (sourceOf s₀ d)) e s)
        (e.mapNestedM (Composer.visitDecl F)) fun e' => FnsBelow r (r (sourceOf s₀ d)) e' :=
      mapNestedM hP fun y => ((((visitDecl F y).frame (stable_declBelow y)).mono
        (fun _ hs => ⟨by have := hs.2.2; omega, hs.2⟩) fun _ _ h => h).mono_inv
        fun _ _ hI h => h.1.elim (fun h' => h' ▸ h.2) fun hc => hI.declBelow_clone h.2 hc)
    by_cases hd : d < s₀.module.decls.size
    · have hadv : advancing.Persists fun s => Advances s₀ s := fun _ _ h hs => hs.trans h
      refine Finishes.bind ((((finish F).lowerDecl d).frame hadv).mono
        (fun s hs => by subst hs; exact ⟨by omega, Advances.refl _⟩) fun _ _ h => h) fun d' => ?_
      have hkeep : advancing.Persists fun s => need n s + r (sourceOf s₀ d) ≤ F ∧
          (d' = d ∨ (d, d') ∈ s.clones) :=
        fun _ _ h hs => ⟨hP _ _ h hs.1, hs.2.imp id (h.clones_sub _)⟩
      refine Finishes.bind ((mapExprs hkeep d' fun e => (hwalk e).mono (fun _ hs => ⟨hs.1.1, hs.2⟩)
        fun _ _ h => h).of_inv fun s hI hs => ⟨⟨by have := hs.2.need_le (n := n); omega, hs.1⟩,
          fun _ => ?_⟩) fun _ => pure _ fun _ h => h.2
      rcases hs.1 with rfl | hc
      · rw [hs.2.source_eq _ hd]
      · rw [hI.sourceOf_clone hc, hI₀.sourceOf_of_lt (hI.clone_lt d d' hc).1]
    · refine Finishes.bind (Q := fun d' s => d' = d ∧ s = s₀) (of_run fun _ s hI hs => ?_) fun d' => ?_
      · subst hs
        exact ⟨d, s, lowerDecl_of_size_le (Nat.le_of_not_lt hd), hI, Advances.refl s, rfl, rfl⟩
      refine of_pure_and fun hd' => ?_
      subst hd'
      refine Finishes.bind ((mapExprs hP d' hwalk).mono (fun s hs => by
        subst hs; exact ⟨by omega, fun h => absurd h hd⟩) fun _ _ h => h) fun _ => ?_
      exact pure _ fun _ _ => .inl rfl

/-- Changing containers and parents finishes. -/
theorem reparent {g : Module → Module} (hP : advancing.Persists P)
    (hg : ∀ m : Module, m.Reparented (g m)) :
    Finishes n r P (Composer.modifyModule g) fun _ s => P s :=
  modifyModule hP (fun m => (hg m).size_eq) fun m _ _ h => (hg m).nests_iff.1 h

/-- Lowering a whole module of `n` declarations finishes from any state the argument holds of. -/
theorem lowerModule : Finishes n r (fun s => s.module.decls.size = n) Composer.lowerModule
    fun _ _ => True := by
  unfold Composer.lowerModule
  refine Finishes.bind (getModule.mono (fun _ h => h) fun m _ h =>
    (⟨h.1 ▸ h.2, trivial⟩ : m.decls.size = n ∧ True)) fun m => of_pure_and fun hm => ?_
  refine Finishes.bind (Q := fun _ _ => True) ?_ fun _ =>
    reparent (fun _ _ _ _ => trivial) fun _ => Module.reparented_patchParents
  refine forIn _ _ fun c _ _ => ?_
  refine getModule.bind fun m' => ?_
  refine Finishes.bind (Q := fun _ _ => True) ?_ fun _ => pure _ fun _ h => h
  refine (forIn _ _ fun member _ _ => ?_).mono (fun _ _ => trivial) fun _ _ h => h
  refine Finishes.bind (Q := fun _ _ => True) (((visitDecl _ member).of_inv fun s hI _ => ?_).mono
    (fun _ h => h) fun _ _ _ => trivial) fun new => ?_
  · have h₁ := need_le (n := n) s
    have h₂ := hI.rank_le (sourceOf s member)
    have h₃ : (n + 2) * (n + 3) = (n + 1) * (n + 3) + (n + 3) := Nat.succ_mul _ _
    show _ ≤ (m.decls.size + 2) * (m.decls.size + 3)
    rw [hm]
    omega
  refine ite _ ?_ (pure _ fun _ h => h)
  exact (reparent (fun _ _ _ _ => trivial) fun _ => Module.reparented_replaceMember _ _ _).bind
    fun _ => pure _ fun _ h => h

end Finishes

/-- The state a run of the pass starts from keeps the argument for a ranking of the module. -/
theorem Bounded.start {m : Module} (h : m.NestRanking r) :
    Bounded m.decls.size r { module := m } where
  size_ge := Nat.le_refl _
  rank_le := h.rank_le
  new_clone _ h₁ h₂ := absurd h₂ (Nat.not_lt.2 h₁)
  clone_lt _ _ h := nomatch h
  clone_inj _ _ _ h := nomatch h
  nested_lt := h.nested_lt
  ranked := h.rank_lt
  keys_nodup := List.nodup_nil
  declarations_eq := rfl

/-- The composer pass never stops with the recursion limit on a module whose nesting `r` ranks;
a run that succeeds ends in a state the argument holds of. -/
theorem run_finishes {opts : LowerOptions} {m : Module} (h : m.NestRanking r) :
    run opts m ≠ .error (.fault .recursionLimit) ∧
      ∀ s, run opts m = .ok s → Bounded m.decls.size r s := by
  have hfin := (Finishes.lowerModule (n := m.decls.size) (r := r)) opts
  unfold run
  constructor
  · intro hrun
    cases hlow : Composer.lowerModule opts { module := m } with
    | error e =>
      rw [ReaderT.run, StateT.run, hlow] at hrun
      cases hrun
      exact hfin.2 _ _ hlow (Bounded.start h) rfl rfl
    | ok p =>
      rw [ReaderT.run, StateT.run, hlow] at hrun
      cases hrun
  · intro s hrun
    cases hlow : Composer.lowerModule opts { module := m } with
    | error e =>
      rw [ReaderT.run, StateT.run, hlow] at hrun
      cases hrun
    | ok p =>
      rw [ReaderT.run, StateT.run, hlow] at hrun
      cases hrun
      exact (hfin.1 _ _ _ hlow (Bounded.start h) rfl).1

end Composer

end ComposeLowering
