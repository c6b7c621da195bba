import ComposeLowering.Proofs.Layout

/-!
# The slot-count guard of a rewritten call

A call given its composer arguments must fill the parameters of the declaration it now calls.
`rewriteCall` checks this while it appends the synthetic arguments: each change word needs a
free slot, each default mask takes a free slot or is dropped when no argument is left out, and
at the end the count must be the callee's. The numbers of change words and default masks are
computed from the call's own argument count, not from the callee's.

`Composer.SlotsFit k owner receivers words omits` says when the three checks pass for a call of
`k` arguments, some left out when `omits`, against a callee of `owner` parameters and
`receivers` receivers, with `words` default masks wanted. A rewrite succeeds exactly then, and
fails otherwise with a slot-count mismatch that names the callee's parameter count
(`rewriteCall_ok_iff`, `rewriteCall_refused`).

For a call of the clone of a declaration with `N` real parameters, a call of `N` arguments
passes exactly when nothing is left out or the clone has default masks (`slotsFit_arity`). The
guard does not compare the call's count with `N`, and some calls of another count pass: when
the clone has default masks, an extra argument may take the composer's slot, the composer the
change word's and the change word the mask's (`extra_argument_takes_composer_slot`).
-/

namespace ComposeLowering

namespace Composer

/-- Whether a call of `k` arguments, some of them left out when `omits`, fits a callee with
`owner` parameters and `receivers` receivers when `words` default masks are wanted: the
arguments, the composer and the change words for `k` arguments leave room, and the default
masks fill the rest exactly; a mask without room may be dropped only when nothing is left out. -/
def SlotsFit (k owner receivers words : Nat) (omits : Bool) : Prop :=
  k + 1 + Synthetic.changedWordCount k receivers ≤ owner ∧
    if omits then owner = k + 1 + Synthetic.changedWordCount k receivers + words
    else owner ≤ k + 1 + Synthetic.changedWordCount k receivers + words

instance (k owner receivers words : Nat) (omits : Bool) :
    Decidable (SlotsFit k owner receivers words omits) :=
  inferInstanceAs (Decidable (_ ∧ _))

/-- The error that refuses a call against a callee with `available` parameters: a slot-count
mismatch with the call written out, or the fault met while writing it. -/
def Refusal (m : Module) (c : Call) (available : Nat) (e : LowerError) : Prop :=
  match m.dumpExpr (.ofCall c Ty.unit) with
  | .ok text => ∃ needed, e = .slotCountMismatch text needed available
  | .error f => e = .fault f

theorem changedWordCount_pos (real receivers : Nat) :
    0 < Synthetic.changedWordCount real receivers := by
  unfold Synthetic.changedWordCount Synthetic.words Synthetic.bitsPerWord
  omega

variable {c : Call} {owner : Nat} {opts : LowerOptions} {s : ComposerState}

/-- Building the error for a call of the wrong slot count and throwing it refuses the call. -/
theorem throw_slotMismatch {α : Type} (needed : Nat) :
    ∃ e, ((slotMismatch c needed owner >>= fun e => throw e : M α)) opts s = .error e ∧
      Refusal s.module c owner e := by
  unfold slotMismatch Refusal
  cases hdump : s.module.dumpExpr (.ofCall c Ty.unit) with
  | ok text =>
    refine ⟨_, ?_, needed, rfl⟩
    simp only [run_bind, run_getModule, Except.bind, liftFault, hdump]
    rfl
  | error f =>
    refine ⟨_, ?_, rfl⟩
    simp only [run_bind, run_getModule, Except.bind, liftFault, hdump]
    rfl

/-- The same, when the throw is followed by more steps. -/
theorem throw_slotMismatch_bind {α β : Type} (needed : Nat) (f : β → M α) :
    ∃ e, ((slotMismatch c needed owner >>= fun e => (throw e : M β) >>= f)) opts s = .error e ∧
      Refusal s.module c owner e := by
  -- a throw followed by more steps is the throw
  have hthrow : (fun e => (throw e : M β) >>= f) = fun e => (throw e : M α) := rfl
  rw [hthrow]
  exact throw_slotMismatch needed

/-! ## Change words -/

/-- Change words that all have room are appended as zeros. -/
theorem pushChangeWords_of_le :
    ∀ {k : Nat} {args : List (Option Expr)}, args.length + k ≤ owner →
      pushChangeWords c owner k args opts s =
        .ok (args ++ List.replicate k (some (Expr.intLit 0)), s)
  | 0, args, _ => by simp [pushChangeWords]
  | k + 1, args, h => by
    rw [pushChangeWords, if_neg (by omega)]
    dsimp only
    rw [pushChangeWords_of_le (by simp; omega)]
    simp [List.replicate_succ]

/-- A change word without room refuses the call. -/
theorem pushChangeWords_refused :
    ∀ {k : Nat} {args : List (Option Expr)}, owner < args.length + (k + 1) →
      ∃ e, pushChangeWords c owner (k + 1) args opts s = .error e ∧ Refusal s.module c owner e
  | k, args, h => by
    rw [pushChangeWords]
    split
    · exact throw_slotMismatch _
    · rename_i hroom
      -- the word has room, so a later one has none
      cases k with
      | zero => omega
      | succ k => exact pushChangeWords_refused (by simp; omega)

/-! ## Default masks -/

/-- Default masks are appended while there is room; the rest are dropped when no argument is
left out or when there is room for all. -/
theorem pushDefaultMasks_of_fits {missing : List Bool} :
    ∀ {w k : Nat} {args : List (Option Expr)},
      (args.length + k ≤ owner ∨ missing.any id = false) →
      pushDefaultMasks c owner missing w k args opts s =
        .ok (args ++ (List.range (min k (owner - args.length))).map
          (fun i => maskArg missing (w + i)), s)
  | _, 0, args, _ => by simp [pushDefaultMasks]
  | w, k + 1, args, h => by
    rw [pushDefaultMasks]
    split
    · rename_i hroom
      rw [run_bind, bitMask_take]
      simp only [liftFault, run_pure, Except.bind]
      rw [pushDefaultMasks_of_fits (h.imp_left fun h => by simp; omega)]
      have hj : min (k + 1) (owner - args.length) =
          min k (owner - (args.length + 1)) + 1 := by omega
      simp only [List.length_append, List.length_singleton, hj, List.range_succ_eq_map,
        List.map_cons, List.map_map, List.append_assoc, List.singleton_append, Nat.add_zero]
      have hshift : (fun i => maskArg missing (w + i)) ∘ Nat.succ =
          fun i => maskArg missing (w + 1 + i) := by
        funext i
        simp only [Function.comp_apply]
        congr 1
        omega
      rw [hshift]
      rfl
    · rename_i hroom
      have hnone : missing.any id = false := h.resolve_left (by omega)
      rw [if_neg (by simp [hnone]), pushDefaultMasks_of_fits (.inr hnone)]
      simp [show owner - args.length = 0 by omega]

/-- A default mask without room refuses the call when an argument is left out. -/
theorem pushDefaultMasks_refused {missing : List Bool} (hmissing : missing.any id = true) :
    ∀ {w k : Nat} {args : List (Option Expr)}, owner < args.length + (k + 1) →
      ∃ e, pushDefaultMasks c owner missing w (k + 1) args opts s = .error e ∧
        Refusal s.module c owner e
  | w, k, args, h => by
    rw [pushDefaultMasks]
    split
    · rename_i hroom
      rw [run_bind, bitMask_take]
      simp only [liftFault, run_pure, Except.bind]
      -- the mask has room, so a later one has none
      cases k with
      | zero => omega
      | succ k => exact pushDefaultMasks_refused hmissing (by simp; omega)
    · exact throw_slotMismatch _

/-! ## The guard -/

@[simp] theorem length_filledArgs (m : Module) (target : CallTarget) (args : List (Option Expr)) :
    (filledArgs m target args).length = args.length := by
  simp [filledArgs]

variable {k : ValueId} {target : CallTarget} {receivers : Nat} {hasDefaults : Bool}

theorem any_isNone (c : Call) : (c.args.map Option.isNone).any id = c.args.any Option.isNone := by
  simp [List.any_map]

/-- A call is rewritten exactly when the callee's slots can be reserved and the slots fit. -/
theorem rewriteCall_ok_iff :
    (∃ c' s', rewriteCall k c target owner receivers hasDefaults opts s = .ok (c', s')) ↔
      owner ≤ Synthetic.maxCallSlots ∧
        SlotsFit c.args.length owner receivers
          (if hasDefaults then Synthetic.defaultWordCount c.args.length else 0)
          (c.args.any Option.isNone) := by
  generalize hw : (if hasDefaults then Synthetic.defaultWordCount c.args.length else 0) = w
  constructor
  · rintro ⟨c', s', h⟩
    have hroom : owner ≤ Synthetic.maxCallSlots := by
      unfold rewriteCall at h
      split at h
      · exact absurd h throw_seq_ne_ok
      · omega
    obtain ⟨-, -, hlen, hskip⟩ := rewriteCall_ok h
    simp only [List.length_append, length_filledArgs, List.length_singleton,
      List.length_replicate, any_isNone, hw] at hlen hskip
    refine ⟨hroom, by omega, ?_⟩
    split
    · rename_i homits
      -- with an argument left out every mask found room
      have hall : ¬ min w (owner - (c.args.length + 1 +
          Synthetic.changedWordCount c.args.length receivers)) < w :=
        fun hlt => by simp [hskip hlt] at homits
      omega
    · omega
  · rintro ⟨hroom, hhead, hmasks⟩
    unfold rewriteCall
    rw [if_neg (by omega)]
    simp only [run_bind, run_getModule, Except.bind]
    have hchange : (filledArgs s.module target c.args ++
        [some (Expr.get k Ty.composer.withNullable)]).length +
          Synthetic.changedWordCount c.args.length receivers ≤ owner := by
      simp only [List.length_append, length_filledArgs, List.length_singleton]
      omega
    rw [pushChangeWords_of_le hchange]
    dsimp only
    rw [hw, pushDefaultMasks_of_fits]
    · dsimp only
      rw [if_neg]
      · exact ⟨_, _, rfl⟩
      · simp only [List.length_append, length_filledArgs, List.length_singleton,
          List.length_replicate, List.length_map, List.length_range]
        split at hmasks <;> omega
    · simp only [List.length_append, length_filledArgs, List.length_singleton,
        List.length_replicate, any_isNone]
      split at hmasks
      · exact .inl (by omega)
      · rename_i hnone
        exact .inr (Bool.eq_false_iff.2 hnone)

/-- A call whose slots do not fit is refused with a slot-count mismatch naming the callee's
parameter count. -/
theorem rewriteCall_refused (hroom : owner ≤ Synthetic.maxCallSlots)
    (hfit : ¬ SlotsFit c.args.length owner receivers
      (if hasDefaults then Synthetic.defaultWordCount c.args.length else 0)
      (c.args.any Option.isNone)) :
    ∃ e, rewriteCall k c target owner receivers hasDefaults opts s = .error e ∧
      Refusal s.module c owner e := by
  generalize hw : (if hasDefaults then Synthetic.defaultWordCount c.args.length else 0) = w
    at hfit
  unfold rewriteCall
  rw [if_neg (by omega)]
  simp only [run_bind, run_getModule, Except.bind]
  by_cases hhead : c.args.length + 1 + Synthetic.changedWordCount c.args.length receivers ≤ owner
  · have hchange : (filledArgs s.module target c.args ++
        [some (Expr.get k Ty.composer.withNullable)]).length +
          Synthetic.changedWordCount c.args.length receivers ≤ owner := by
      simp only [List.length_append, length_filledArgs, List.length_singleton]
      omega
    rw [pushChangeWords_of_le hchange]
    dsimp only
    rw [hw]
    by_cases hdrop : c.args.length + 1 + Synthetic.changedWordCount c.args.length receivers + w ≤
        owner ∨ c.args.any Option.isNone = false
    · -- every mask is placed or dropped, and the count comes out wrong
      have hdrop' : (filledArgs s.module target c.args ++
          [some (Expr.get k Ty.composer.withNullable)] ++
            List.replicate (Synthetic.changedWordCount c.args.length receivers)
              (some (Expr.intLit 0))).length + w ≤ owner ∨
          (c.args.map Option.isNone).any id = false := by
        rcases hdrop with hroom' | hnone
        · left
          simp only [List.length_append, length_filledArgs, List.length_singleton,
            List.length_replicate]
          omega
        · exact .inr (by rw [any_isNone]; exact hnone)
      rw [pushDefaultMasks_of_fits hdrop']
      dsimp only
      rw [if_pos]
      · exact throw_slotMismatch_bind _ _
      · simp only [List.length_append, length_filledArgs, List.length_singleton,
          List.length_replicate, List.length_map, List.length_range]
        intro hlen
        apply hfit
        refine ⟨hhead, ?_⟩
        split
        · rename_i homits
          simp only [homits, Bool.true_eq_false, or_false] at hdrop
          omega
        · omega
    · -- an argument is left out and a mask finds no room
      simp only [not_or, Bool.not_eq_false, Nat.not_le] at hdrop
      obtain ⟨hover, homits⟩ := hdrop
      obtain ⟨j, rfl⟩ : ∃ j, w = j + 1 := ⟨w - 1, by omega⟩
      have hbound : owner < (filledArgs s.module target c.args ++
          [some (Expr.get k Ty.composer.withNullable)] ++
            List.replicate (Synthetic.changedWordCount c.args.length receivers)
              (some (Expr.intLit 0))).length + (j + 1) := by
        simp only [List.length_append, length_filledArgs, List.length_singleton,
          List.length_replicate]
        omega
      obtain ⟨e, he, hr⟩ := pushDefaultMasks_refused (c := c) (s := s) (w := 0)
        (by rw [any_isNone]; exact homits) hbound
      rw [he]
      exact ⟨e, rfl, hr⟩
  · -- a change word finds no room
    obtain ⟨j, hj⟩ : ∃ j, Synthetic.changedWordCount c.args.length receivers = j + 1 :=
      ⟨_, (Nat.succ_pred_eq_of_pos (changedWordCount_pos _ _)).symm⟩
    have hbound : owner < (filledArgs s.module target c.args ++
        [some (Expr.get k Ty.composer.withNullable)]).length + (j + 1) := by
      simp only [List.length_append, length_filledArgs, List.length_singleton]
      omega
    obtain ⟨e, he, hr⟩ := pushChangeWords_refused (c := c) (s := s) hbound
    rw [hj, he]
    exact ⟨e, rfl, hr⟩

/-- A rewrite fails only when the callee has more parameters than a call can reserve slots for,
or when it refuses the call. -/
theorem rewriteCall_error {e : LowerError}
    (h : rewriteCall k c target owner receivers hasDefaults opts s = .error e) :
    (Synthetic.maxCallSlots < owner ∧ e = .fault .capacityOverflow) ∨ Refusal s.module c owner e := by
  by_cases hroom : owner ≤ Synthetic.maxCallSlots
  · right
    by_cases hfit : SlotsFit c.args.length owner receivers
        (if hasDefaults then Synthetic.defaultWordCount c.args.length else 0)
        (c.args.any Option.isNone)
    · obtain ⟨c', s', hok⟩ := rewriteCall_ok_iff.2 ⟨hroom, hfit⟩
      rw [hok] at h
      cases h
    · obtain ⟨e', he', hr⟩ : ∃ e, rewriteCall k c target owner receivers hasDefaults opts s =
          .error e ∧ Refusal s.module c owner e :=
        rewriteCall_refused hroom hfit
      rw [he'] at h
      cases h
      exact hr
  · left
    unfold rewriteCall at h
    rw [if_pos (by omega)] at h
    cases h
    exact ⟨by omega, rfl⟩

/-! ## Calls of a clone -/

/-- A call of a composable declaration whose lowered form is recorded as lowered is rewritten
against that form, with its parameters as slots and its receivers, default masks wanted. -/
theorem lowerCall_eq_rewriteCall {fuel : Nat} {t t' : DeclId} {s₁ : ComposerState}
    (hc : c.composable = false) (ht : c.target = .decl t)
    (hmark : (s.module.decl t).isMarkedComposable = true)
    (hlow : lowerDecl fuel t opts s = .ok (t', s₁)) (hmem : t' ∈ s₁.lowered) :
    lowerCall (fuel + 1) k c opts s = rewriteCall k c (.decl t')
      (s₁.module.decl t').params.length (s₁.module.decl t').receiverSlots true opts s₁ := by
  have hshape : targetShape (lowerDecl fuel) c opts s = .ok (some (.decl t',
      (s₁.module.decl t').params.length, (s₁.module.decl t').receiverSlots, true), s₁) := by
    unfold targetShape
    rw [ht]
    simp only [run_bind, run_getModule, Except.bind, hmark, Bool.not_true, Bool.false_eq_true,
      if_false, hlow, run_get]
    rw [if_neg (by simp [hmem])]
    rfl
  rw [lowerCall, if_neg (by simp [hc]), run_bind, hshape]
  rfl

/-- For a call with as many arguments as its callee has real parameters, the slots fit exactly
when no argument is left out or the callee has default masks. -/
theorem slotsFit_arity {N R : Nat} {b : Bool} (harity : c.args.length = N) :
    SlotsFit N (N + Synthetic.paramCount N R b) R (Synthetic.defaultWordCount N)
        (c.args.any Option.isNone) ↔
      c.args.any Option.isNone = false ∨ 0 < if b then Synthetic.defaultWordCount N else 0 := by
  unfold SlotsFit Synthetic.paramCount
  cases homits : c.args.any Option.isNone
  · simp only [Bool.false_eq_true, if_false, true_or, iff_true]
    constructor <;> split <;> omega
  · -- an argument is left out, so there is one, and one default mask for it
    have hpos : 0 < Synthetic.defaultWordCount N := by
      obtain ⟨a, ha, -⟩ := List.any_eq_true.1 homits
      have : 0 < N := harity ▸ List.length_pos_of_mem ha
      unfold Synthetic.defaultWordCount Synthetic.words Synthetic.bitsPerWord
      omega
    simp only [if_true, Bool.true_eq_false, false_or]
    cases b <;> simp only [if_true, Bool.false_eq_true, if_false] <;> omega

/-- The slot-count guard for a call, not yet given its composer arguments, of a composable
declaration whose lowered form is in lowered form over `N` real parameters: the call is
rewritten exactly when the form's slots can be reserved and the call's slots fit them; every
failure is a capacity fault for a form with more parameters than can be reserved, or a refusal
that names the form's parameter count; and a call of `N` arguments fits exactly when nothing is
left out or the form has default masks. -/
theorem lowerCall_ok_iff_slotsFit {fuel : Nat} {t t' : DeclId} {s₁ : ComposerState} {N : Nat}
    {b : Bool} (hc : c.composable = false) (ht : c.target = .decl t)
    (hmark : (s.module.decl t).isMarkedComposable = true)
    (hlow : lowerDecl fuel t opts s = .ok (t', s₁)) (hmem : t' ∈ s₁.lowered)
    (hform : (s₁.module.decl t').LoweredForm N b) :
    ((∃ c' s', lowerCall (fuel + 1) k c opts s = .ok (c', s')) ↔
        N + Synthetic.paramCount N (s₁.module.decl t').receiverSlots b ≤ Synthetic.maxCallSlots ∧
          SlotsFit c.args.length (N + Synthetic.paramCount N (s₁.module.decl t').receiverSlots b)
            (s₁.module.decl t').receiverSlots (Synthetic.defaultWordCount c.args.length)
            (c.args.any Option.isNone)) ∧
      (∀ e, lowerCall (fuel + 1) k c opts s = .error e →
        (Synthetic.maxCallSlots < N + Synthetic.paramCount N (s₁.module.decl t').receiverSlots b ∧
            e = .fault .capacityOverflow) ∨
          Refusal s₁.module c (N + Synthetic.paramCount N (s₁.module.decl t').receiverSlots b) e) ∧
      (c.args.length = N →
        (SlotsFit N (N + Synthetic.paramCount N (s₁.module.decl t').receiverSlots b)
            (s₁.module.decl t').receiverSlots (Synthetic.defaultWordCount N)
            (c.args.any Option.isNone) ↔
          c.args.any Option.isNone = false ∨ 0 < if b then Synthetic.defaultWordCount N else 0)) := by
  rw [lowerCall_eq_rewriteCall hc ht hmark hlow hmem, hform.length_params]
  refine ⟨?_, fun _ => rewriteCall_error, slotsFit_arity⟩
  exact rewriteCall_ok_iff.trans (by rw [if_pos rfl])

/-! ## A call of the wrong count -/

/-- `Dot` has one parameter, with a default. -/
def dotModule : Module :=
  { name := "app",
    decls := #[
      { name := "Dot", kind := .function, parent := .container 0, annotations := [.composable],
        params := [{ value := 0, name := "r", ty := Ty.int, default := some (Expr.intLit 1) }],
        body := some (.block [] Ty.unit) }],
    containers := #[{ kind := .file "p", members := [0] }],
    files := [0], values := #["r"] }

/-- A call of `Dot` with two arguments, one more than `Dot` has parameters. -/
def extraCall : Call := { target := .decl 0, args := [some (Expr.intLit 1), some (Expr.intLit 2)] }

/-- Lowering `Dot` makes a clone in lowered form over one real parameter, with a default mask. -/
theorem dotModule_clone : ∃ t' s₁, lowerDecl 3 0 {} { module := dotModule } = .ok (t', s₁) ∧
    t' ∈ s₁.lowered ∧ (s₁.module.decl t').LoweredForm 1 true := by
  have hrun : (match lowerDecl 3 0 {} { module := dotModule } with
      | .ok (t', s₁) => s₁.lowered.contains t' &&
          (s₁.module.decl t').params.map (·.origin) == [.defined, .composer, .changed, .defaultMask] &&
          (s₁.module.decl t').receiverSlots == 0 && (s₁.module.decl t').kind == .function
      | .error _ => false) = true := by
    decide +kernel
  cases hr : lowerDecl 3 0 {} { module := dotModule } with
  | error e => rw [hr] at hrun; cases hrun
  | ok r =>
  obtain ⟨t', s₁⟩ := r
  rw [hr] at hrun
  simp only [Bool.and_eq_true, beq_iff_eq, List.contains_iff_mem] at hrun
  obtain ⟨⟨⟨hmem, horigins⟩, hrecv⟩, hkind⟩ := hrun
  refine ⟨t', s₁, rfl, hmem, [.defined], ?_, rfl, by decide, fun h => by rw [hkind] at h; cases h⟩
  rw [horigins, hrecv]
  rfl

/-- The guard at the call of `Dot` with two arguments. -/
theorem extraCall_slot_guard : ∃ t' s₁, lowerDecl 3 0 {} { module := dotModule } = .ok (t', s₁) ∧
    t' ∈ s₁.lowered ∧ (s₁.module.decl t').LoweredForm 1 true ∧
    ((∃ c' s', lowerCall 4 0 extraCall {} { module := dotModule } = .ok (c', s')) ↔
        1 + Synthetic.paramCount 1 (s₁.module.decl t').receiverSlots true ≤ Synthetic.maxCallSlots ∧
          SlotsFit extraCall.args.length (1 + Synthetic.paramCount 1 (s₁.module.decl t').receiverSlots true)
            (s₁.module.decl t').receiverSlots (Synthetic.defaultWordCount extraCall.args.length)
            (extraCall.args.any Option.isNone)) := by
  obtain ⟨t', s₁, hlow, hmem, hform⟩ := dotModule_clone
  exact ⟨t', s₁, hlow, hmem, hform,
    (lowerCall_ok_iff_slotsFit (k := 0) rfl rfl (by decide) hlow hmem hform).1⟩

/-- The guard does not compare a call's argument count with the callee's: a call of `Dot`, which
has one parameter, with two arguments is rewritten, and its second argument takes the slot of
the clone's composer. -/
theorem extra_argument_takes_composer_slot :
    ∃ t' s₁ c' s', lowerDecl 3 0 {} { module := dotModule } = .ok (t', s₁) ∧
      t' ∈ s₁.lowered ∧ (s₁.module.decl t').LoweredForm 1 true ∧
      lowerCall 4 0 extraCall {} { module := dotModule } = .ok (c', s') ∧
      extraCall.args.length = 2 ∧ c'.target = .decl t' ∧
      (s'.module.decl t').params[1]?.map (·.origin) = some .composer ∧
      ∃ ty, c'.args[1]? = some (some (.const (.int 2) ty)) := by
  obtain ⟨t', s₁, hlow, hmem, hform⟩ := dotModule_clone
  have hrun : ((lowerDecl 3 0 {} { module := dotModule }).toOption.bind fun r₁ =>
      (lowerCall 4 0 extraCall {} { module := dotModule }).toOption.map fun r₂ =>
        r₂.1.target == .decl r₁.1 &&
          (r₂.2.module.decl r₁.1).params[1]?.map (·.origin) == some .composer) = some true := by
    decide +kernel
  rw [hlow] at hrun
  cases hr : lowerCall 4 0 extraCall {} { module := dotModule } with
  | error e => rw [hr] at hrun; cases hrun
  | ok r =>
  obtain ⟨c', s'⟩ := r
  rw [hr] at hrun
  simp only [Except.toOption, Option.bind_some, Option.map_some, Option.some.injEq,
    Bool.and_eq_true, beq_iff_eq] at hrun
  obtain ⟨htarget, hslot⟩ := hrun
  refine ⟨t', s₁, c', s', hlow, hmem, hform, rfl, rfl, htarget, hslot, Ty.int, ?_⟩
  -- the call is rewritten against the clone, which keeps both given arguments in place
  rw [lowerCall_eq_rewriteCall rfl rfl (by decide) hlow hmem] at hr
  obtain ⟨-, rfl, -, -⟩ := rewriteCall_ok hr
  simp [extraCall, filledArgs, Expr.intLit]

end Composer

end ComposeLowering
