import ComposeLowering.Proofs.Convention

/-!
# Callers and callees agree on default masks

A call to a lowered declaration passes, after its own arguments, the composer, zero change
words, and one default mask for every 32 real parameters, in which bit `j` of mask `w` says that
argument `32 * w + j` was left out. On the other side, the clone begins its body with a prologue
that, for each real parameter `i` with a default, tests bit `i % 32` of its default mask
`i / 32` and assigns the default when the bit is set. The two sides are written in different
places; this file shows that they agree.

* `Composer.CallLayout` says where each argument of a rewritten call stands: the arguments
  given, at their places; a placeholder of the parameter's type for each one left out; the
  composer; the change words; and the default masks, bit by bit.
* `Decl.maskedDefaults` is the prologue a lowered declaration's own signature asks for: for each
  real parameter with a default, in order, the assignment of that default under the test of the
  parameter's bit in its default mask.

The main statement, `rewritten_call_agrees_with_prologue`, says that every call the composer
pass rewrites is laid out for the clone it now calls, and that every clone whose body the pass
lowers, with the prologue on and default masks present, begins with exactly that prologue.
Since the clone is in lowered form, its default mask `w` is its parameter at index
`N + 1 + C + w`, the slot in which the caller puts mask `w`.

A mask is packed by `Synthetic.packFlags`, which sets bit `i` for each flag `i` that is set;
the bits of a packed word are read back by `Synthetic.packFlags_getLsbD`, also for bit 31,
where the word as a signed integer turns negative.
-/

namespace ComposeLowering

/-! ## Mask words -/

namespace Synthetic

private theorem getLsbD_or_shiftLeft (acc : UInt32) {i j : Nat} (hi : i < 32) (hj : j < 32) :
    (acc ||| ((1 : UInt32) <<< i.toUInt32)).toBitVec.getLsbD j =
      (acc.toBitVec.getLsbD j || i == j) := by
  simp only [UInt32.toBitVec_or, UInt32.toBitVec_shiftLeft, BitVec.getLsbD_or]
  congr 1
  simp [hj, Nat.mod_eq_of_lt hi]
  grind

/-- Setting the bits of some indices below 32, one after another, sets bit `j` when it was set
or `j` is among them. -/
private theorem getLsbD_foldl_or {j : Nat} (hj : j < 32) :
    ∀ (l : List (Bool × Nat)) (acc : UInt32), (∀ p ∈ l, p.2 < 32) →
      (l.foldl (fun acc (p : Bool × Nat) => acc ||| ((1 : UInt32) <<< p.2.toUInt32)) acc
        ).toBitVec.getLsbD j = (acc.toBitVec.getLsbD j || l.any (·.2 == j))
  | [], acc, _ => by simp
  | p :: l, acc, h => by
    rw [List.foldl_cons, getLsbD_foldl_or hj l _ (fun q hq => h q (List.mem_cons_of_mem _ hq)),
      getLsbD_or_shiftLeft acc (h p List.mem_cons_self) hj, List.any_cons, Bool.or_assoc]

private theorem any_zipIdx_eq (bits : List Bool) (j : Nat) :
    (bits.zipIdx.any fun a => a.1 && a.2 == j) = bits[j]?.getD false := by
  apply Bool.eq_iff_iff.2
  simp only [List.any_eq_true, Bool.and_eq_true, beq_iff_eq]
  constructor
  · rintro ⟨⟨b, i⟩, hmem, hb, rfl⟩
    dsimp only at hmem hb
    rw [List.mem_zipIdx_iff_getElem?] at hmem
    simp [hmem, hb]
  · intro hget
    cases hj : bits[j]? with
    | none => simp [hj] at hget
    | some b => exact ⟨(b, j), List.mem_zipIdx_iff_getElem?.2 hj, by simpa [hj] using hget, rfl⟩

/-- Bit `j` of a packed word is flag `j`. -/
theorem packFlags_getLsbD {bits : List Bool} (h : bits.length ≤ bitsPerWord) {j : Nat}
    (hj : j < bitsPerWord) : (packFlags bits).toBitVec.getLsbD j = bits[j]?.getD false := by
  unfold packFlags
  rw [getLsbD_foldl_or hj, ← any_zipIdx_eq]
  · simp [List.any_filter]
  · intro p hp
    have hp' := (List.mem_zipIdx (List.mem_filter.1 hp).1).2.1
    have h32 : bits.length ≤ 32 := h
    omega

end Synthetic

/-! ## Lowered form -/

namespace Decl.LoweredForm

variable {x : Decl} {n : Nat} {b : Bool}

/-- A declaration in lowered form has its real parameters and then its synthetic ones. -/
theorem length_params (h : x.LoweredForm n b) :
    x.params.length = n + Synthetic.paramCount n x.receiverSlots b := by
  obtain ⟨real, hparams, hlen, -, -⟩ := h
  have := congrArg List.length hparams
  rw [List.length_map, List.length_append, List.length_map, Synthetic.length_params, hlen] at this
  exact this

/-- The real parameters of a declaration in lowered form are its first `n` parameters. -/
theorem realParams_eq_take (h : x.LoweredForm n b) : x.realParams = x.params.take n := by
  obtain ⟨real, hparams, hlen, hreal, -⟩ := h
  have htake : (x.params.take n).map (·.origin) = real := by
    rw [List.map_take, hparams, ← hlen, List.take_left]
  have hdrop : (x.params.drop n).map (·.origin) =
      (Synthetic.params n x.receiverSlots b).map SyntheticParam.origin := by
    rw [List.map_drop, hparams, ← hlen, List.drop_left]
  unfold Decl.realParams
  conv_lhs => rw [← List.take_append_drop n x.params]
  rw [List.filter_append, List.filter_eq_self.2, List.filter_eq_nil_iff.2, List.append_nil]
  · -- the parameters after them are synthetic
    intro p hp
    have : p.origin ∈ (Synthetic.params n x.receiverSlots b).map SyntheticParam.origin :=
      hdrop ▸ List.mem_map_of_mem hp
    obtain ⟨q, -, hq⟩ := List.mem_map.1 this
    simp [← hq, SyntheticParam.isSynthetic_origin]
  · intro p hp
    have : p.origin ∈ real := htake ▸ List.mem_map_of_mem hp
    simp [hreal _ this]

end Decl.LoweredForm

namespace Composer

/-! ## Where the arguments of a rewritten call stand -/

/-- Bit `j` of the default mask of word `w` is the flag of argument `32 * w + j`. -/
theorem maskWord_getLsbD (missing : List Bool) (w : Nat) {j : Nat} (hj : j < Synthetic.bitsPerWord) :
    (Synthetic.packFlags ((missing.drop (w * Synthetic.bitsPerWord)).take Synthetic.bitsPerWord)
      ).toInt32.toBitVec.getLsbD j = missing[Synthetic.bitsPerWord * w + j]?.getD false := by
  rw [UInt32.toBitVec_toInt32, Synthetic.packFlags_getLsbD (List.length_take_le _ _) hj,
    List.getElem?_take_of_lt hj, List.getElem?_drop, Nat.mul_comm]

/-- The slot of an argument given is kept; the slot of one left out gets the placeholder for the
default of the target's parameter there. -/
theorem getElem?_filledArgs (m : Module) (o : DeclId) (args : List (Option Expr)) (i : Nat) :
    (filledArgs m (.decl o) args)[i]? = args[i]?.map fun a =>
      match a with
      | some x => some x
      | none => ((m.decl o).params[i]?).bind defaultArgumentFor := by
  simp only [filledArgs, List.getElem?_map, List.getElem?_zipIdx, Option.map_map, Nat.zero_add]
  rfl

/-- The arguments `args'` that a call with arguments `args` gets for the lowered declaration `x`
with `masks` default masks, through the composer `k`: the arguments given at their places, for
each one left out a placeholder of its parameter's type (nothing for a vararg parameter), the
composer at index `N = args.length`, zero change words at indices `N + 1` to `N + C`, and at
index `N + 1 + C + w` the default mask whose bit `j` says that argument `32 * w + j` was left
out. -/
structure CallLayout (x : Decl) (k : ValueId) (masks : Nat) (args args' : List (Option Expr)) :
    Prop where
  length_eq : args'.length =
    args.length + 1 + Synthetic.changedWordCount args.length x.receiverSlots + masks
  supplied : ∀ (i : Nat) (e : Expr), args[i]? = some (some e) → args'[i]? = some (some e)
  omitted : ∀ i : Nat, args[i]? = some none → ∃ p, x.params[i]? = some p ∧
    args'[i]? = some (if p.vararg.isSome then none
      else some (.composite .defaultValue [p.ty.zeroValue] p.ty))
  composer : args'[args.length]? = some (some (.get k Ty.composer.withNullable))
  changed : ∀ j < Synthetic.changedWordCount args.length x.receiverSlots,
    args'[args.length + 1 + j]? = some (some (Expr.intLit 0))
  default_masks : ∀ w < masks, ∃ mask : Int32,
    args'[args.length + 1 + Synthetic.changedWordCount args.length x.receiverSlots + w]? =
      some (some (Expr.intLit mask)) ∧
    ∀ j < Synthetic.bitsPerWord,
      mask.toBitVec.getLsbD j = true ↔ args[Synthetic.bitsPerWord * w + j]? = some none

/-- The arguments a call is rewritten to, read slot by slot. -/
theorem callLayout_of_eq {m : Module} {o : DeclId} {k : ValueId} {masks : Nat}
    {args args' : List (Option Expr)} (hlen : args.length ≤ (m.decl o).params.length)
    (h : args' = filledArgs m (.decl o) args ++ [some (.get k Ty.composer.withNullable)] ++
      List.replicate (Synthetic.changedWordCount args.length (m.decl o).receiverSlots)
        (some (Expr.intLit 0)) ++
      (List.range masks).map (maskArg (args.map Option.isNone))) :
    CallLayout (m.decl o) k masks args args' := by
  have hfilled : (filledArgs m (.decl o) args).length = args.length := by simp [filledArgs]
  subst h
  constructor
  · simp only [List.length_append, hfilled, List.length_singleton, List.length_replicate,
      List.length_map, List.length_range]
  · intro i e he
    have hi : i < args.length := by
      rcases List.getElem?_eq_some_iff.1 he with ⟨hi, -⟩
      exact hi
    rw [List.append_assoc, List.append_assoc, List.getElem?_append_left (by omega),
      getElem?_filledArgs, he]
    rfl
  · intro i hi
    have hi' : i < args.length := by
      rcases List.getElem?_eq_some_iff.1 hi with ⟨hi', -⟩
      exact hi'
    obtain ⟨p, hp⟩ : ∃ p, (m.decl o).params[i]? = some p :=
      ⟨_, List.getElem?_eq_getElem (Nat.lt_of_lt_of_le hi' hlen)⟩
    refine ⟨p, hp, ?_⟩
    rw [List.append_assoc, List.append_assoc, List.getElem?_append_left (by omega),
      getElem?_filledArgs, hi]
    simp only [Option.map_some, hp, Option.bind_some, defaultArgumentFor]
  · rw [List.append_assoc, List.getElem?_append_left (by simp [hfilled]),
      List.getElem?_append_right (by omega)]
    simp [hfilled]
  · intro j hj
    rw [List.getElem?_append_left (by simp [hfilled]; omega),
      List.getElem?_append_right (by simp [hfilled])]
    simp [hfilled, hj]
  · intro w hw
    refine ⟨(Synthetic.packFlags (((args.map Option.isNone).drop (w * Synthetic.bitsPerWord)).take
      Synthetic.bitsPerWord)).toInt32, ?_, fun j hj => ?_⟩
    · have hhead : (filledArgs m (.decl o) args ++ [some (Expr.get k Ty.composer.withNullable)] ++
          List.replicate (Synthetic.changedWordCount args.length (m.decl o).receiverSlots)
            (some (Expr.intLit 0))).length =
          args.length + 1 + Synthetic.changedWordCount args.length (m.decl o).receiverSlots := by
        simp only [List.length_append, hfilled, List.length_singleton, List.length_replicate]
      rw [List.getElem?_append_right (by omega), hhead, Nat.add_sub_cancel_left, List.getElem?_map,
        List.getElem?_range hw]
      rfl
    · rw [maskWord_getLsbD _ _ hj, List.getElem?_map]
      cases ha : args[Synthetic.bitsPerWord * w + j]? with
      | none => simp
      | some a => cases a <;> simp


/-! ## Rewriting a call -/

/-- A call that lowering marks as rewritten was unmarked, found a target, and was given the
arguments of that target. -/
theorem lowerCall_rewrites {fuel : Nat} {k : ValueId} {c c' : Call} {opts : LowerOptions}
    {s s' : ComposerState} (h : lowerCall (fuel + 1) k c opts s = .ok (c', s'))
    (hc : c.composable = false) (hc' : c'.composable = true) :
    ∃ target owner receivers hasDefaults s₁,
      targetShape (lowerDecl fuel) c opts s =
        .ok (some (target, owner, receivers, hasDefaults), s₁) ∧
      rewriteCall k c target owner receivers hasDefaults opts s₁ = .ok (c', s') := by
  rw [lowerCall] at h
  split at h
  · rename_i hmarked
    rw [hc] at hmarked
    cases hmarked
  obtain ⟨shape, s₁, h₁, h⟩ := bind_ok h
  rcases shape with _ | ⟨target, owner, receivers, hasDefaults⟩
  · -- a call without a target is kept as it is, unmarked
    cases h
    rw [hc] at hc'
    cases hc'
  · exact ⟨target, owner, receivers, hasDefaults, s₁, h₁, h⟩

/-- A call of a declaration finds a target only when the declaration is marked composable and
its lowered form is recorded as lowered; the target is that form, with its parameters as slots
and its receivers, and default masks wanted. -/
theorem targetShape_decl_ok {lower : DeclId → M DeclId} {c : Call} {t : DeclId}
    {opts : LowerOptions} {s s' : ComposerState} {target : CallTarget} {owner receivers : Nat}
    {hasDefaults : Bool} (ht : c.target = .decl t)
    (h : targetShape lower c opts s = .ok (some (target, owner, receivers, hasDefaults), s')) :
    (s.module.decl t).isMarkedComposable = true ∧ ∃ o, lower t opts s = .ok (o, s') ∧
      o ∈ s'.lowered ∧ target = .decl o ∧ owner = (s'.module.decl o).params.length ∧
      receivers = (s'.module.decl o).receiverSlots ∧ hasDefaults = true := by
  rcases targetShape_eq_ok h with ⟨-, hsh⟩ | ⟨t', o, ht', hmarked, hl, hsh⟩
  · obtain ⟨arity, hc, -⟩ := hsh _ _ _ _ rfl
    rw [ht] at hc
    cases hc
  · rw [ht] at ht'
    cases ht'
    obtain ⟨ho, rfl, rfl, rfl, rfl⟩ := hsh _ _ _ _ rfl
    exact ⟨hmarked, o, hl, ho, rfl, rfl, rfl, rfl⟩

variable {A : Prop}

/-- A call of a declaration with one argument slot per parameter that lowering rewrites goes to
the clone of the declaration, which is in lowered form over as many real parameters as the call
has arguments, and its arguments are laid out for that clone. -/
theorem lowerCall_callLayout {fuel : Nat} {k : ValueId} {c c' : Call} {opts : LowerOptions}
    {s s' : ComposerState} {t : DeclId} (hI : Inv A s) (ht : c.target = .decl t)
    (harity : c.args.length = (s.module.decl t).params.length) (hc : c.composable = false)
    (h : lowerCall fuel k c opts s = .ok (c', s')) (hc' : c'.composable = true) :
    ∃ t' b, c'.target = .decl t' ∧ (t, t') ∈ s'.clones ∧
      (s'.module.decl t').LoweredForm c.args.length b ∧
      CallLayout (s'.module.decl t') k (if b then Synthetic.defaultWordCount c.args.length else 0)
        c.args c'.args := by
  cases fuel with
  | zero =>
    rw [lowerCall] at h
    exact absurd h throw_ne_ok
  | succ fuel =>
  obtain ⟨target, owner, receivers, hasDefaults, s₁, h₁, h₂⟩ := lowerCall_rewrites h hc hc'
  obtain ⟨hmarked, o, hlower, -, rfl, rfl, rfl, rfl⟩ := targetShape_decl_ok ht h₁
  obtain ⟨hI₁, hg₁, ho⟩ := (walks A fuel).lowerDecl t opts s o s₁ hlower hI trivial
  obtain ⟨rfl, rfl, hlen, -⟩ := rewriteCall_ok h₂
  have hN : (s₁.module.decl t).params.length = c.args.length := by
    rw [hg₁.length_params (lt_of_isMarkedComposable hmarked), harity]
  have hfilled : (filledArgs s₁.module (.decl o) c.args).length = c.args.length := by
    simp [filledArgs]
  simp only [List.length_append, hfilled, List.length_singleton, List.length_replicate] at hlen
  rcases ho with rfl | hcl
  · -- the declaration itself has too few slots for the arguments and the composer
    omega
  obtain ⟨-, -, ⟨b, hform⟩, -⟩ := hI₁.clone_form _ hcl
  have hform : (s₁.module.decl o).LoweredForm c.args.length b := by
    rw [← hN]
    exact hform
  have hparams := hform.length_params
  dsimp only
  refine ⟨o, b, rfl, hcl, hform, callLayout_of_eq (by omega) ?_⟩
  -- the masks that fit are all the clone has
  have hmasks : min (Synthetic.defaultWordCount c.args.length)
      ((s₁.module.decl o).params.length - (c.args.length + 1 +
        Synthetic.changedWordCount c.args.length (s₁.module.decl o).receiverSlots)) =
      if b then Synthetic.defaultWordCount c.args.length else 0 := by
    rw [hparams, Synthetic.paramCount]
    split <;> omega
  simp only [List.length_append, hfilled, List.length_singleton, List.length_replicate, ite_true,
    hmasks]

end Composer

/-! ## The default prologue -/

/-- The defaults put back into parameters, one for each, read as the parameters paired with
their new defaults. -/
theorem take_putDefaults :
    ∀ (ps : List Param) (ds : List (Option Expr)), ds.length = ps.length → ∀ n,
      (Module.putDefaults ps ds).take n =
        ((ps.take n).zip ds).map fun q => { q.1 with default := q.2 }
  | [], [], _, _ => by simp [Module.putDefaults]
  | p :: ps, d :: ds, h, n => by
    cases n with
    | zero => simp
    | succ n =>
      rw [Module.putDefaults, List.take_succ_cons, List.take_succ_cons, List.zip_cons_cons,
        List.map_cons, take_putDefaults ps ds (by simpa using h) n]

/-- The prologue the signature of a lowered declaration with `n` real parameters asks for: for
each real parameter `i` with a default, in order, the assignment of that default to the
parameter when bit `i % 32` of its default mask `i / 32` is set. -/
def Decl.maskedDefaults (x : Decl) (n : Nat) : List Expr :=
  ((x.params.take n).zipIdx).filterMap fun q => q.1.default.map fun e =>
    .ite (.maskBit (x.maskWords.getD (q.2 / Synthetic.bitsPerWord) 0)
        (q.2 % Synthetic.bitsPerWord) Ty.boolean)
      (.set q.1.value e Ty.unit) none Ty.unit

/-- The prologue built for a clone from the defaults it gets back is the prologue its signature
asks for once they are back. -/
theorem prologueStmts_eq_maskedDefaults {y : Decl} {n : Nat} {b : Bool} (hform : y.LoweredForm n b)
    {ds : List (Option Expr)} (hds : ds.length = y.params.length) :
    Composer.prologueStmts y ds y.maskWords =
      { y with params := Module.putDefaults y.params ds }.maskedDefaults n := by
  have hshape : ({ y with params := Module.putDefaults y.params ds } : Decl).signatureShape =
      y.signatureShape := by
    simp [Decl.signatureShape, map_undefaulted_putDefaults, Decl.receiverSlots, Decl.receivers]
  unfold Composer.prologueStmts Decl.maskedDefaults
  rw [Decl.maskWords_eq_of_shape hshape, hform.realParams_eq_take]
  dsimp only
  rw [take_putDefaults _ _ hds, List.zipIdx_map, List.filterMap_map]
  rfl

namespace Composer

variable {A : Prop}

/-- The prologue goes in front of the statements of a body that is a block, and in front of any
other body. -/
theorem defaultPrologue_eq (d : Decl) (ds : List (Option Expr)) (words : List ValueId) (b : Expr) :
    ∃ rest ty, defaultPrologue d ds words b = .block (prologueStmts d ds words ++ rest) ty := by
  unfold defaultPrologue
  cases b with
  | block inner t => exact ⟨inner, t, rfl⟩
  | _ => exact ⟨_, _, rfl⟩

/-- A clone whose body is lowered with the prologue on and that has default masks begins its
body with the prologue its signature asks for. -/
theorem cloneWithComposer_prologue {fuel : Nat} {old new : DeclId} {opts : LowerOptions}
    {s s' : ComposerState} (hI : Inv A s) (hold : old < s.module.decls.size)
    (h : cloneWithComposer fuel old opts s = .ok (new, s')) (hp : opts.defaultPrologue = true)
    (hw : (s'.module.decl new).maskWords ≠ []) {b : Expr} (hb : (s'.module.decl new).body = some b) :
    ∃ rest ty, b = .block ((s'.module.decl new).maskedDefaults
      (s'.module.decl new).realParams.length ++ rest) ty := by
  cases fuel with
  | zero =>
    rw [cloneWithComposer] at h
    exact absurd h throw_ne_ok
  | succ fuel =>
  obtain ⟨hI', -, hcl, y, defaults, body, hlen, hdecl⟩ := cloneWithComposer_ok (walks A fuel) hI hold h
  obtain ⟨-, -, ⟨bm, hform⟩, -⟩ := hI'.clone_form _ hcl
  -- the clone is the declaration `y` with its defaults and body put back
  have hshape : (s'.module.decl new).signatureShape = y.signatureShape := by
    rw [hdecl]
    simp [Decl.signatureShape, map_undefaulted_putDefaults, Decl.receiverSlots, Decl.receivers]
  have hformy := hform.of_shape hshape.symm
  rw [Decl.maskWords_eq_of_shape hshape] at hw
  rw [hform.realParams_length, hdecl]
  rw [hdecl] at hb
  obtain ⟨b₀, -, rfl⟩ := Option.map_eq_some_iff.1 hb
  have hcond : (opts.defaultPrologue && !y.maskWords.isEmpty) = true := by
    simpa [hp] using hw
  obtain ⟨rest, ty, hpro⟩ := defaultPrologue_eq y defaults y.maskWords b₀
  refine ⟨rest, ty, ?_⟩
  -- the prologue reads only the parameters of the clone, not its body
  rw [if_pos hcond, hpro, prologueStmts_eq_maskedDefaults hformy hlen]
  rfl

/-! ## Callers and callees -/

/-- Callers and callees agree on default masks. Every call of a declaration with one argument
slot per parameter that the composer pass rewrites, from any state of the pass, goes to the
clone of the declaration, in lowered form over as many real parameters as the call has
arguments, and carries the arguments laid out for it: those given at their places, a
placeholder of the parameter's type for each one left out, the composer, zero change words, and
default masks whose bit `j` of mask `w` is set exactly when argument `32 * w + j` was left out.
And every clone whose body the pass lowers with the prologue on, when it has default masks,
begins its body with the prologue its signature asks for: for each real parameter `i` with a
default, in order, the assignment of that default when bit `i % 32` of default mask `i / 32`
is set. -/
theorem rewritten_call_agrees_with_prologue :
    (∀ {fuel : Nat} {k : ValueId} {c c' : Call} {opts : LowerOptions} {s s' : ComposerState}
        {t : DeclId}, Inv A s → c.target = .decl t →
        c.args.length = (s.module.decl t).params.length → c.composable = false →
        lowerCall fuel k c opts s = .ok (c', s') → c'.composable = true →
        ∃ t' b, c'.target = .decl t' ∧ (t, t') ∈ s'.clones ∧
          (s'.module.decl t').LoweredForm c.args.length b ∧
          CallLayout (s'.module.decl t') k
            (if b then Synthetic.defaultWordCount c.args.length else 0) c.args c'.args) ∧
    (∀ {fuel : Nat} {old new : DeclId} {opts : LowerOptions} {s s' : ComposerState},
        Inv A s → old < s.module.decls.size →
        cloneWithComposer fuel old opts s = .ok (new, s') → opts.defaultPrologue = true →
        (s'.module.decl new).maskWords ≠ [] → ∀ b, (s'.module.decl new).body = some b →
        ∃ rest ty, b = .block ((s'.module.decl new).maskedDefaults
          (s'.module.decl new).realParams.length ++ rest) ty) :=
  ⟨fun hI ht harity hc h hc' => lowerCall_callLayout hI ht harity hc h hc',
    fun hI hold h hp hw _ hb => cloneWithComposer_prologue hI hold h hp hw hb⟩

/-- `F` has 34 parameters, of which the 32nd and the 34th declare defaults; `wideCall` calls it
and leaves out exactly those two, so that the call sets bit 31 of the first default mask, its
sign bit, and bit 1 of the second. -/
def wideModule : Module :=
  { name := "app",
    decls := #[
      { name := "F", kind := .function, parent := .container 0, annotations := [.composable],
        params := (List.range 34).map fun i =>
          { value := i, name := "x", ty := Ty.int,
            default := if i = 31 ∨ i = 33 then some (Expr.intLit 1) else none },
        body := some (.block [] Ty.unit) }],
    containers := #[{ kind := .file "p", members := [0] }],
    files := [0], values := (List.replicate 34 "x").toArray }

/-- A call of `F` that leaves out arguments 31 and 33. -/
def wideCall : Call :=
  { target := .decl 0,
    args := (List.range 34).map fun i => if i = 31 ∨ i = 33 then none else some (Expr.intLit 5) }

theorem wideModule_call_agrees_with_prologue :
    ∃ c' s', lowerCall 4 100 wideCall {} { module := wideModule } = .ok (c', s') ∧
      c'.composable = true ∧
      (∃ t' b, c'.target = .decl t' ∧ (0, t') ∈ s'.clones ∧
        (s'.module.decl t').LoweredForm wideCall.args.length b ∧
        CallLayout (s'.module.decl t') 100
          (if b then Synthetic.defaultWordCount wideCall.args.length else 0) wideCall.args c'.args) ∧
    ∃ new s'', cloneWithComposer 4 0 {} { module := wideModule } = .ok (new, s'') ∧
      (s''.module.decl new).maskWords ≠ [] ∧ ∃ b, (s''.module.decl new).body = some b ∧
      ∃ rest ty, b = .block ((s''.module.decl new).maskedDefaults
        (s''.module.decl new).realParams.length ++ rest) ty := by
  have hI : Inv False { module := wideModule } :=
    inv_start (Module.unlowered_of_check (by decide +kernel)) False.elim
  have hcall : (match lowerCall 4 100 wideCall {} { module := wideModule } with
      | .ok (c', _) => c'.composable
      | .error _ => false) = true := by
    decide +kernel
  have hclone : (match cloneWithComposer 4 0 {} { module := wideModule } with
      | .ok (new, s'') => !(s''.module.decl new).maskWords.isEmpty &&
          (s''.module.decl new).body.isSome
      | .error _ => false) = true := by
    decide +kernel
  cases hr : lowerCall 4 100 wideCall {} { module := wideModule } with
  | error e => rw [hr] at hcall; cases hcall
  | ok r =>
  obtain ⟨c', s'⟩ := r
  rw [hr] at hcall
  cases hr' : cloneWithComposer 4 0 {} { module := wideModule } with
  | error e => rw [hr'] at hclone; cases hclone
  | ok r' =>
  obtain ⟨new, s''⟩ := r'
  rw [hr'] at hclone
  simp only [Bool.and_eq_true, Bool.not_eq_true', List.isEmpty_eq_false_iff,
    Option.isSome_iff_exists] at hclone
  obtain ⟨hw, b, hb⟩ := hclone
  refine ⟨c', s', rfl, hcall, rewritten_call_agrees_with_prologue.1 hI rfl (by decide) rfl hr hcall,
    new, s'', rfl, hw, b, hb,
    rewritten_call_agrees_with_prologue.2 hI (by decide) hr' rfl hw b hb⟩

end Composer

end ComposeLowering
