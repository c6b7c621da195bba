import ComposeLowering.Proofs.Composer.Invariant

/-!
# The composer pass keeps its invariant

Four walks of the transformer call one another with one unit of fuel less at every step from
one declaration to another: finding or making the lowered form of a declaration, cloning it,
rewriting a call, and lowering the expressions of a function nested in a clone. Inside one
expression, `rewriteExpr` walks the nodes, children first, and hands calls and nested functions
to two of those walks. `Walks A fuel` states, for one fuel, what each walk keeps
(`Composer.Keeps`, with the invariant `Composer.Inv`); `walks` proves it for every fuel by
induction, each walk at `fuel + 1` from the walks at `fuel`, and `keeps_rewriteExpr` carries
what the two walks it is handed keep through an expression of any size.

The postconditions are what the callers need: a lowered declaration is the declaration itself or
its recorded clone, a clone is recorded, and every expression a walk returns has its marked
calls fitting. The proof of each walk follows its code step by step: each step is peeled off
with `bind_ok`, and its effect on the state is one of the edit lemmas of the invariant.
-/

namespace ComposeLowering

namespace Composer

/-- What the walks of the pass keep, at one fuel. -/
structure Walks (A : Prop) (fuel : Nat) : Prop where
  /-- The lowered form of a declaration is the declaration itself or its recorded clone. -/
  lowerDecl : ∀ d, Keeps (Inv A) (fun _ => True) (lowerDecl fuel d)
    fun r s => r = d ∨ (d, r) ∈ s.clones
  /-- A clone is recorded as the clone of the declaration it replaces. -/
  clone : ∀ d, Keeps (Inv A) (fun s => d < s.module.decls.size) (cloneWithComposer fuel d)
    fun r s => (d, r) ∈ s.clones
  /-- A rewritten call fits, with all its arguments. -/
  lowerCall : ∀ k c, Keeps (Inv A) (fun s => CallFit A s c) (lowerCall fuel k c)
    fun c' s => CallFit A s c'
  /-- Lowering a nested function in place keeps the invariant. -/
  bodyNested : ∀ fr d, Keeps (Inv A) (fun _ => True) (bodyNested fuel fr d) fun _ _ => True

variable {A : Prop} {fuel : Nat}

theorem exists_isSome_of_map_isSome_eq {ds ds' : List (Option Expr)}
    (h : ds'.map Option.isSome = ds.map Option.isSome) (hs : ∃ o ∈ ds', o.isSome = true) :
    ∃ o ∈ ds, o.isSome = true := by
  obtain ⟨o, ho, hso⟩ := hs
  have : true ∈ ds.map Option.isSome := h ▸ List.mem_map.2 ⟨o, ho, hso⟩
  simpa using this

section Exprs

variable {f : Expr → M Expr}
  (hf : ∀ e, Keeps (Inv A) (fun s => e.All (NodeFits A s)) (f e) fun e' s => e'.All (NodeFits A s))
include hf

/-- Lowering each default by a walk that keeps expressions fitting keeps them fitting, with a
lowered default exactly where there was one. -/
theorem keeps_defaults (ds : List (Option Expr)) :
    Keeps (Inv A) (fun s => ∀ o ∈ ds, ∀ e ∈ o, e.All (NodeFits A s)) (ds.mapM fun o => o.mapM f)
      fun ds' s => ds'.map Option.isSome = ds.map Option.isSome ∧
        ∀ o ∈ ds', ∀ e ∈ o, e.All (NodeFits A s) := by
  have hmap := Keeps.mapM
    (Q := fun (o o' : Option Expr) s => o'.isSome = o.isSome ∧ ∀ e ∈ o', e.All (NodeFits A s))
    (P := fun s => ∀ o ∈ ds, ∀ e ∈ o, e.All (NodeFits A s))
    (fun _ _ _ _ hg h => ⟨h.1, fun e he => Inv.nodeFits_of_grows hg (h.2 e he)⟩)
    (fun _ _ hg h o ho e he => Inv.nodeFits_of_grows hg (h o ho e he)) ds
    fun o ho => (Keeps.option o fun e he =>
      (hf e).mono (fun _ hs => hs o ho e he) fun _ _ h => h).mono (fun _ h => h) fun _ _ h => h
  exact hmap.mono (fun _ h => h) fun _ _ h =>
    ⟨map_eq_of_forall₂ (h.imp fun _ _ h => h.1), forall_mem_of_forall₂ (h.imp fun _ _ h => h.2)⟩

/-- Lowering a body by a walk that keeps expressions fitting keeps it fitting. -/
theorem keeps_body (b : Option Expr) :
    Keeps (Inv A) (fun s => ∀ e ∈ b, e.All (NodeFits A s)) (b.mapM f)
      fun b' s => ∀ e ∈ b', e.All (NodeFits A s) :=
  (Keeps.option b fun e he => (hf e).mono (fun _ hs => hs e he) fun _ _ h => h).mono
    (fun _ h => h) fun _ _ h => h.2

/-- Lowering a declaration's defaults and body in place keeps the invariant. -/
theorem keeps_mapExprs (d : DeclId) :
    Keeps (Inv A) (fun _ => True) (mapExprs f d) fun _ _ => True := by
  intro opts s u s' h hI _
  rw [mapExprs, bind_eq_ok_iff] at h
  obtain ⟨m, s₁, h₁, h⟩ := h
  cases h₁
  dsimp only at h
  rw [bind_eq_ok_iff] at h
  obtain ⟨u, s₂, h₂, h⟩ := h
  rw [bind_eq_ok_iff] at h
  obtain ⟨defaults, s₃, h₃, h⟩ := h
  rw [bind_eq_ok_iff] at h
  obtain ⟨body, s₄, h₄, h⟩ := h
  -- the defaults and body are taken out, lowered, and put back
  obtain ⟨hI₂, hg₂⟩ := modifyModule_ok h₂ ▸ inv_takeExprs hI d
  have howned : ∀ e ∈ (s.module.decl d).owned, e.All (NodeFits A s₂) :=
    fun e he => Inv.nodeFits_of_grows hg₂ (hI.calls_fit d e he)
  obtain ⟨hI₃, hg₃, hsome, hdefaults⟩ := keeps_defaults hf _ opts s₂ defaults s₃ h₃ hI₂
    fun o ho e he => by
      simp only [Module.takeExprs_snd, List.mem_map] at ho
      obtain ⟨p, hp, rfl⟩ := ho
      exact howned e (List.mem_append_left _ (List.mem_filterMap.2 ⟨p, hp, he⟩))
  obtain ⟨hI₄, hg₄, hbody⟩ := keeps_body hf _ opts s₃ body s₄ h₄ hI₃
    fun e he => Inv.nodeFits_of_grows hg₃
      (howned e (List.mem_append_right _ (Option.mem_toList.2 (by simpa [Module.takeExprs_snd] using he))))
  have hg : Grows s s₄ := hg₂.trans (hg₃.trans hg₄)
  obtain ⟨hI₅, hg₅⟩ := modifyModule_ok h ▸ inv_putExprs hI₄
    (fun o ho e he => Inv.nodeFits_of_grows hg₄ (hdefaults o ho e he)) hbody fun hl hk hput => by
      -- the defaults come back where the declaration had them, so it was lowered with masks
      have hdef : (s.module.decl d).hasDefaultValues = true := by
        obtain ⟨o, ho, ho'⟩ := exists_isSome_of_map_isSome_eq hsome hput
        simp only [Module.takeExprs_snd, List.mem_map] at ho
        obtain ⟨p, hp, rfl⟩ := ho
        exact List.any_eq_true.2 ⟨p, hp, ho'⟩
      have hd : d < s.module.decls.size := Nat.lt_of_not_le fun hle => by
        rw [Module.decl_of_size_le hle] at hdef
        exact Bool.noConfusion hdef
      have hshape := hg.shape_eq d hd
      obtain ⟨n, hform⟩ := hI.masks_defaults d (hI.mem_lowered_of_grows hI₄ hg hd hl)
        (Decl.kind_eq_of_shape hshape ▸ hk) hdef
      exact ⟨n, hform.of_shape hshape⟩
  exact ⟨hI₅, hg.trans hg₅, trivial⟩

end Exprs

section Rewrite

variable {onCall : Call → M Call} {onNested : DeclId → M DeclId}
  (hcall : ∀ c, Keeps (Inv A) (fun s => CallFit A s c) (onCall c) fun c' s => CallFit A s c')
  (hnested : ∀ d, Keeps (Inv A) (fun _ => True) (onNested d) fun _ _ => True)
include hcall hnested

/-- Rewriting an expression, children first, keeps it fitting when the walks it hands its calls
and its nested functions to keep the invariant. -/
theorem keeps_rewriteExpr (fr : BodyFrame) (e : Expr) :
    Keeps (Inv A) (fun s => e.All (NodeFits A s)) (rewriteExpr onCall onNested fr e)
      fun e' s => e'.All (NodeFits A s) := by
  -- the children are rewritten first; the node keeps its call shape
  have hchildren := Keeps.mapChildrenM (f := rewriteExpr onCall onNested fr) (g := onNested) e
    stable_all_nodeFits (persists_all_nodeFits e)
    (fun c hc => (keeps_rewriteExpr fr c).mono (fun _ hs => hs.child hc) fun _ _ h => h)
    (fun d => (hnested d).mono (fun _ _ => trivial) fun _ _ h => h)
  rw [rewriteExpr]
  refine Keeps.bind (hchildren.keep (persists_all_nodeFits _)) fun e' => ?_
  split
  · exact Keeps.pure _ fun _ _ => all_nodeFits_of_leaf rfl rfl
  · exact Keeps.pure _ fun _ h => all_of_rebuilt rfl h.1.2 (all_of_rebuilt h.1.1 h.1.2 h.2)
  · exact Keeps.pure _ fun _ h => all_of_rebuilt rfl h.1.2 (all_of_rebuilt h.1.1 h.1.2 h.2)
  · rename_i tgt d x ta args cc t
    split
    · exact Keeps.pure _ fun _ h => all_of_rebuilt h.1.1 h.1.2 h.2
    · refine Keeps.bind ((hcall ⟨tgt, d, x, ta, args, cc⟩).mono
        (fun _ h => all_ofCall_iff.1 (all_of_rebuilt h.1.1 h.1.2 h.2)) fun _ _ h => h)
        fun c' => Keeps.pure _ fun _ hc' => all_ofCall_iff.2 hc'
  · exact Keeps.pure _ fun _ h => all_of_rebuilt h.1.1 h.1.2 h.2
termination_by sizeOf e
decreasing_by exact Expr.sizeOf_lt_of_mem_children hc

end Rewrite

theorem mem_of_lookup_eq_some {l : List (DeclId × DeclId)} {a b : DeclId}
    (h : l.lookup a = some b) : (a, b) ∈ l := by
  obtain ⟨l₁, l₂, rfl, -⟩ := List.lookup_eq_some_iff.1 h
  exact List.mem_append_right _ List.mem_cons_self

/-- Finding the lowered form of a declaration keeps the invariant when cloning one, at the fuel
below, does. -/
theorem keeps_lowerDecl
    (hclone : ∀ f, fuel = f + 1 → ∀ d, Keeps (Inv A) (fun s => d < s.module.decls.size)
      (cloneWithComposer f d) fun r s => (d, r) ∈ s.clones) (d : DeclId) :
    Keeps (Inv A) (fun _ => True) (lowerDecl fuel d) fun r s => r = d ∨ (d, r) ∈ s.clones := by
  intro opts s r s' h hI _
  rw [lowerDecl.eq_def] at h
  rw [bind_eq_ok_iff] at h
  obtain ⟨s₀, s₁, h₀, h⟩ := h
  cases h₀
  -- every early return leaves the state as it was
  have hsame : ∀ r', (pure r' : M DeclId) opts s = .ok (r, s') → r' = d →
      Inv A s' ∧ Grows s s' ∧ (r = d ∨ (d, r) ∈ s'.clones) := by
    intro r' hp hr
    cases hp
    exact ⟨hI, Grows.refl s, .inl hr⟩
  split at h
  · exact hsame d h rfl
  split at h
  · exact hsame d h rfl
  split at h
  · exact hsame d h rfl
  split at h
  · exact hsame d h rfl
  rename_i hlowered hcomposable _ _
  cases hdone : s.clones.lookup d with
  | some done =>
    rw [hdone] at h
    cases h
    exact ⟨hI, Grows.refl s, .inr (mem_of_lookup_eq_some hdone)⟩
  | none => ?_
  rw [hdone] at h
  dsimp only at h
  split at h
  · -- a declaration outside `lowered` has no composer parameter
    rename_i hcomposer
    obtain ⟨p, hp, horigin⟩ := List.any_eq_true.1 hcomposer
    exact absurd (beq_iff_eq.1 horigin) (hI.no_composer d (by simpa using hlowered) p hp)
  · have hd : d < s.module.decls.size := lt_of_isMarkedComposable (by simpa using hcomposable)
    -- a declaration left to clone needs fuel for it
    split at h
    · exact Keeps.throw (P := fun _ => True) (Q := fun r s => r = d ∨ (d, r) ∈ s.clones) _
        opts s r s' h hI trivial
    · obtain ⟨hI', hg, hc⟩ := hclone _ rfl d opts s r s' h hI hd
      exact ⟨hI', hg, .inr hc⟩

/-- Allocating a clone keeps the invariant: the clone is recorded, has no defaults and no body
yet, takes one default slot per parameter, and the defaults it is to get back are those of the
declaration it replaces, one for each real parameter and none for each synthetic one; unless
it is a constructor, it has default masks when some default is to come back. -/
theorem allocClone_ok {old : DeclId} {opts : LowerOptions} {s s' : ComposerState} {cl : FreshClone}
    (hI : Inv A s) (hold : old < s.module.decls.size) (h : allocClone old opts s = .ok (cl, s')) :
    Inv A s' ∧ Grows s s' ∧ cl.source = s.module.decl old ∧ (old, cl.new) ∈ s'.clones ∧
      cl.new < s'.module.decls.size ∧ (∀ o ∈ cl.defaults, ∀ e ∈ o, e ∈ cl.source.owned) ∧
      cl.defaults.length = (s'.module.decl cl.new).params.length ∧
      cl.words = (s'.module.decl cl.new).maskWords ∧
      ((∃ o ∈ cl.defaults, o.isSome = true) → (s'.module.decl cl.new).kind ≠ .constructor →
        ∃ n, (s'.module.decl cl.new).LoweredForm n true) := by
  obtain ⟨hexplicit, dispatch, values₁, s₁, extension, values₂, s₂, params, defaults, values₃, s₃,
    synthetic, s₄, h₁, h₂, h₃, h₄, hs', rfl⟩ := allocClone_eq_ok h
  -- the renamings and the synthetic parameters only allocate values
  obtain ⟨ha₁, hdispatch⟩ := renameReceiver_ok h₁
  obtain ⟨ha₂, hextension⟩ := renameReceiver_ok h₂
  obtain ⟨ha₃, horigin, hdefaults, hpnone⟩ := renameParams_ok h₃
  obtain ⟨ha₄, hsynth, hsnone⟩ := syntheticParams_ok h₄
  have ha : SameArena s s₄ := ha₁.trans (ha₂.trans (ha₃.trans ha₄))
  have hdecl₄ := Module.decl_congr s.module ha.decls_eq
  have hsize₄ : s₄.module.decls.size = s.module.decls.size := congrArg Array.size ha.decls_eq
  -- the clone is appended at the end of the arena and recorded
  obtain ⟨x, hmod, hparams, hdispatch', hextension', hkind, hbody, hlow, hcl⟩ :
      ∃ x : Decl, s'.module = (s₄.module.allocDecl x).1 ∧ x.params = params ++ synthetic ∧
        x.dispatch = dispatch ∧ x.extension = extension ∧ x.kind = (s.module.decl old).kind ∧
        x.body = none ∧ s'.lowered = s₄.module.decls.size :: s₄.lowered ∧
        s'.clones = (old, s₄.module.decls.size) :: s₄.clones := by
    subst hs'
    exact ⟨_, rfl, rfl, rfl, rfl, rfl, rfl, rfl, rfl⟩
  have hreal : ∀ p ∈ params, p.origin.isSynthetic = false := by
    intro p hp
    have : p.origin ∈ (s.module.decl old).params.map (·.origin) := horigin ▸ List.mem_map_of_mem hp
    obtain ⟨q, hq, hqp⟩ := List.mem_map.1 this
    have hnot : ∀ q ∈ (s.module.decl old).explicitParams,
        q.origin.isSynthetic = false ∧ ¬q.name = SyntheticParam.composerName := by
      simpa using hexplicit
    exact hqp ▸ (hnot q (List.mem_append_right _ hq)).1
  have hlen : params.length = (s.module.decl old).params.length := by
    simpa using congrArg List.length horigin
  have hrecv : x.receiverSlots = (s.module.decl old).receiverSlots := by
    simp only [Decl.receiverSlots, Decl.receivers, List.length_append, hdispatch', hextension',
      length_toList_of_isSome_eq hdispatch, length_toList_of_isSome_eq hextension]
  have hnew : s'.module.decl s₄.module.decls.size = x := by simp [hmod, Module.decl_allocDecl]
  have hform : x.LoweredForm (s.module.decl old).params.length
      (requiresDefaultMask s.module (s.module.decls.size + 1) old) := by
    rw [← hlen]
    refine Decl.loweredForm_of_parts hparams (hrecv ▸ hsynth) hreal fun hc => ?_
    exact requiresDefaultMask_constructor _ (hkind ▸ hc)
  obtain ⟨hI₆, hg₆⟩ : Inv A s' ∧ Grows s₄ s' := inv_alloc (ha.inv hI)
    (h := requiresDefaultMask s.module (s.module.decls.size + 1) old) (hsize₄ ▸ hold)
    (by simp [hmod]) (fun j hj => by simp [hmod, Module.decl_allocDecl, hj])
    (by rw [hnew, hdecl₄]; exact hform)
    (by rw [hnew, hdecl₄, hrecv])
    (by
      rw [hnew]
      simp only [Decl.owned, hbody, hparams, Option.toList_none, List.append_nil,
        List.filterMap_append, List.append_eq_nil_iff, List.filterMap_eq_nil_iff]
      exact ⟨fun p hp => by simp [hpnone p hp], fun p hp => by simp [hsnone p hp]⟩)
    hlow hcl
  refine ⟨hI₆, ha.grows.trans hg₆, rfl, hcl ▸ List.mem_cons_self, by simp [hmod], ?_, ?_, ?_, ?_⟩
  · -- the defaults to put back are the replaced declaration's own
    intro o ho e he
    rw [List.mem_append, hdefaults] at ho
    rcases ho with ho | ho
    · obtain ⟨p, hp, rfl⟩ := List.mem_map.1 ho
      exact List.mem_append_left _ (List.mem_filterMap.2 ⟨p, hp, he⟩)
    · obtain ⟨_, _, rfl⟩ := List.mem_map.1 ho
      exact absurd he (by simp)
  · dsimp only
    rw [hnew, hparams, hdefaults]
    simp [hlen]
  · -- the real parameters are no default masks
    have hnomask : params.filter (·.origin == .defaultMask) = [] :=
      List.filter_eq_nil_iff.2 fun p hp => by
        have := hreal p hp
        intro hm
        rw [beq_iff_eq.1 hm] at this
        exact Bool.noConfusion this
    dsimp only
    rw [hnew, Decl.maskWords, hparams, List.filter_append, hnomask, List.nil_append]
  · -- a default to put back is one of the replaced declaration's own, which asks for masks
    rintro ⟨o, ho, hsome⟩ hk
    dsimp only at ho hk ⊢
    rw [hnew, hkind] at hk
    have hdef : (s.module.decl old).hasDefaultValues = true := by
      rw [List.mem_append, hdefaults] at ho
      rcases ho with ho | ho
      · obtain ⟨p, hp, rfl⟩ := List.mem_map.1 ho
        exact List.any_eq_true.2 ⟨p, hp, hsome⟩
      · obtain ⟨_, _, rfl⟩ := List.mem_map.1 ho
        exact absurd hsome (by simp)
    rw [hnew]
    exact ⟨_, requiresDefaultMask_of_hasDefaultValues _ hk hdef ▸ hform⟩

/-- What cloning leaves: the clone as the walks over its overrides, defaults and body leave it,
with the lowered defaults put back into its parameters, one for each, and the lowered body put
in, behind the default prologue when the options ask for one and the clone has default masks. -/
theorem cloneWithComposer_ok (ih : Walks A fuel) {old new : DeclId} {opts : LowerOptions}
    {s s' : ComposerState} (hI : Inv A s) (hold : old < s.module.decls.size)
    (h : cloneWithComposer (fuel + 1) old opts s = .ok (new, s')) :
    Inv A s' ∧ Grows s s' ∧ (old, new) ∈ s'.clones ∧
      ∃ (y : Decl) (defaults : List (Option Expr)) (body : Option Expr),
        defaults.length = y.params.length ∧
        s'.module.decl new =
          { y with
            params := Module.putDefaults y.params defaults
            body := body.map fun b =>
              if opts.defaultPrologue && !y.maskWords.isEmpty then
                defaultPrologue y defaults y.maskWords b
              else b } := by
  obtain ⟨cl, s₆, overrides, s₇, s₈, defaults', s₉, body, s₁₀, u, h₆, h₇, h₈, h₉, h₁₀, h₁₃, rfl⟩ :=
    cloneWithComposer_succ_eq_ok h
  obtain ⟨hI₆, hg₆, hsource, hcl, hnew, hdefaults, hlen, hwords, hmasks⟩ :=
    allocClone_ok hI hold h₆
  -- the overrides are lowered, then set on the clone
  obtain ⟨hI₇, hg₇, -⟩ := Keeps.mapM (Q := fun _ _ _ => True) (fun _ _ _ _ _ _ => trivial)
    (fun _ _ _ _ => trivial) _ (fun a _ => (ih.lowerDecl a).mono (fun _ _ => trivial)
      fun _ _ _ => trivial) opts s₆ overrides s₇ h₇ hI₆ trivial
  obtain ⟨hI₈, hg₈⟩ : Inv A s₈ ∧ Grows s₇ s₈ := modifyModule_ok h₈ ▸
    inv_modifyDecl hI₇ (i := cl.new) (f := fun x => { x with overrides }) rfl
      (fun e he => .inl he) fun _ _ hd => .inl hd
  -- the defaults and the body of the declaration it replaces fit, in every later state
  have hg₈' : Grows s s₈ := hg₆.trans (hg₇.trans hg₈)
  have hpre : ∀ o ∈ cl.defaults, ∀ e ∈ o, e.All (NodeFits A s₈) := fun o ho e he =>
    Inv.nodeFits_of_grows hg₈' (hI.calls_fit old e (hsource ▸ hdefaults o ho e he))
  let frame : BodyFrame :=
    { old, new := cl.new, values := cl.values, composer := cl.composer, nested := false }
  have hwalk := keeps_rewriteExpr (ih.lowerCall cl.composer) (ih.bodyNested frame) frame
  obtain ⟨hI₉, hg₉, hsome, hdefaults'⟩ :=
    keeps_defaults hwalk _ opts s₈ defaults' s₉ h₉ hI₈ hpre
  obtain ⟨hI₁₀, hg₁₀, hbody'⟩ := keeps_body hwalk _ opts s₉ body s₁₀ h₁₀ hI₉
    fun e he => Inv.nodeFits_of_grows (hg₈'.trans hg₉)
      (hI.calls_fit old e (List.mem_append_right _ (Option.mem_toList.2 (hsource ▸ he))))
  -- the lowered defaults and body, with the prologue, are put into the clone
  have hdefaults'' : ∀ o ∈ defaults', ∀ e ∈ o, e.All (NodeFits A s₁₀) :=
    fun o ho e he => Inv.nodeFits_of_grows hg₁₀ (hdefaults' o ho e he)
  have hg₁₀' : Grows s₆ s₁₀ := hg₇.trans hg₈ |>.trans hg₉ |>.trans hg₁₀
  have hshape := hg₁₀'.shape_eq cl.new hnew
  obtain ⟨hI₁₃, hg₁₃⟩ := modifyModule_ok h₁₃ ▸ inv_putExprs hI₁₀ hdefaults'' (by
    intro e he
    obtain ⟨b, hb, rfl⟩ := Option.map_eq_some_iff.1 he
    have hball := hbody' b hb
    split
    · exact all_defaultPrologue _ _ hdefaults'' hball
    · exact hball) fun _ hk hput => by
      -- the defaults come back where the replaced declaration had them
      obtain ⟨n, hform⟩ := hmasks (exists_isSome_of_map_isSome_eq hsome hput)
        (Decl.kind_eq_of_shape hshape ▸ hk)
      exact ⟨n, hform.of_shape hshape⟩
  have hg : Grows s₆ s' := hg₁₀'.trans hg₁₃
  refine ⟨hI₁₃, hg₆.trans hg, hg.clones_sub _ hcl, s₁₀.module.decl cl.new, defaults', body, ?_, ?_⟩
  · -- the clone keeps its parameters while its defaults and body are lowered
    rw [← List.length_map (f := Option.isSome), hsome, List.length_map, hlen,
      ← hg₁₀'.length_params hnew]
  · rw [modifyModule_ok h₁₃, Module.putExprs, Module.decl_modifyDecl,
      if_pos ⟨rfl, Nat.lt_of_lt_of_le hnew hg₁₀'.size_le⟩, hwords, Decl.maskWords_eq_of_shape hshape]

theorem keeps_clone (ih : Walks A fuel) (old : DeclId) :
    Keeps (Inv A) (fun s => old < s.module.decls.size) (cloneWithComposer (fuel + 1) old)
      fun r s => (old, r) ∈ s.clones := by
  intro opts s r s' h hI hold
  obtain ⟨hI', hg, hcl, -⟩ := cloneWithComposer_ok ih hI hold h
  exact ⟨hI', hg, hcl⟩

/-- Finding the target of a call keeps the invariant when finding a lowered form does, and a
target found takes as many slots as it says. -/
theorem keeps_targetShape {lower : DeclId → M DeclId} {Q : DeclId → DeclId → ComposerState → Prop}
    (hlower : ∀ d, Keeps (Inv A) (fun _ => True) (lower d) (Q d)) (c : Call) :
    Keeps (Inv A) (fun _ => True) (targetShape lower c) fun sh s =>
      ∀ tgt o r hd, sh = some (tgt, o, r, hd) → FitsTarget s tgt o := by
  intro opts s sh s' h hI _
  rcases targetShape_eq_ok h with ⟨rfl, hsh⟩ | ⟨t, owner, -, -, hl, hsh⟩
  · -- an invoke takes the slots it is given
    refine ⟨hI, Grows.refl _, fun tgt o r hd he => ?_⟩
    obtain ⟨-, -, rfl⟩ := hsh tgt o r hd he
    rfl
  · obtain ⟨hI', hg, -⟩ := hlower t opts s owner s' hl hI trivial
    refine ⟨hI', hg, fun tgt o r hd he => ?_⟩
    obtain ⟨hl', rfl, rfl, -, -⟩ := hsh tgt o r hd he
    exact ⟨hl', (hI'.lowered_form owner hl').1, rfl⟩

/-- A call given its arguments for a target that takes as many slots fits. -/
theorem keeps_rewriteCall (k : ValueId) (c : Call) (target : CallTarget) (owner receivers : Nat)
    (hasDefaults : Bool) :
    Keeps (Inv A) (fun s => CallFit A s c ∧ FitsTarget s target owner)
      (rewriteCall k c target owner receivers hasDefaults) fun c' s => CallFit A s c' := by
  intro opts s c' s' h hI ⟨hfit, htarget⟩
  obtain ⟨rfl, rfl, hlen, -⟩ := rewriteCall_ok h
  have ha : SameArena s { s with calls := s.calls + 1 } := ⟨rfl, rfl, rfl⟩
  refine ⟨ha.inv hI, ha.grows, callFit_rewritten (stable_callFit c _ _ ha.grows hfit) ?_ ?_⟩
  · simp only [List.length_append, List.length_map, List.length_range] at hlen ⊢
    rw [hlen]
    exact persists_fitsTarget target owner _ _ ha.grows htarget
  · intro a ha'
    simp only [List.filterMap_append, List.mem_append] at ha'
    rcases ha' with ((ha' | ha') | ha') | ha'
    · rcases mem_filledArgs ha' with ha' | ha'
      · exact .inl ha'
      · exact .inr (all_nodeFits_of_noCalls ha')
    · obtain ⟨o, ho, rfl⟩ := List.mem_filterMap.1 ha'
      cases List.mem_singleton.1 ho
      exact .inr (all_nodeFits_of_leaf rfl rfl)
    · obtain ⟨o, ho, rfl⟩ := List.mem_filterMap.1 ha'
      cases List.eq_of_mem_replicate ho
      exact .inr (all_nodeFits_of_leaf rfl rfl)
    · obtain ⟨o, ho, rfl⟩ := List.mem_filterMap.1 ha'
      obtain ⟨i, -, hi⟩ := List.mem_map.1 ho
      cases hi
      exact .inr (all_nodeFits_of_leaf rfl rfl)

theorem keeps_lowerCall (ih : Walks A fuel) (k : ValueId) (c : Call) :
    Keeps (Inv A) (fun s => CallFit A s c) (lowerCall (fuel + 1) k c) fun c' s => CallFit A s c' := by
  intro opts s c' s' h hI hpre
  rw [lowerCall] at h
  split at h
  · cases h
    exact ⟨hI, Grows.refl s, hpre⟩
  rw [bind_eq_ok_iff] at h
  obtain ⟨shape, s₁, h₁, h⟩ := h
  obtain ⟨hI₁, hg₁, hfits⟩ := keeps_targetShape ih.lowerDecl c opts s shape s₁ h₁ hI trivial
  have hpre₁ : CallFit A s₁ c := stable_callFit c s s₁ hg₁ hpre
  rcases shape with _ | ⟨target, owner, receivers, hasDefaults⟩
  · cases h
    exact ⟨hI₁, hg₁, hpre₁⟩
  · obtain ⟨hI₂, hg₂, hfit⟩ := keeps_rewriteCall k c target owner receivers hasDefaults
      opts s₁ c' s' h hI₁ ⟨hpre₁, hfits _ _ _ _ rfl⟩
    exact ⟨hI₂, hg₁.trans hg₂, hfit⟩

theorem keeps_bodyNested (ih : Walks A fuel) (fr : BodyFrame) (d : DeclId) :
    Keeps (Inv A) (fun _ => True) (bodyNested (fuel + 1) fr d) fun _ _ => True := by
  intro opts s r s' h hI _
  rw [bodyNested, bind_eq_ok_iff] at h
  obtain ⟨m, s₁, h₁, h⟩ := h
  cases h₁
  rw [bind_eq_ok_iff] at h
  obtain ⟨u, s₂, h₂, h⟩ := h
  cases h
  exact keeps_mapExprs (keeps_rewriteExpr (ih.lowerCall _) (ih.bodyNested _) _) d opts s u s' h₂
    hI trivial

/-- Every walk keeps the invariant at every fuel: at zero fuel each one fails as soon as it
would step to another declaration, and at `fuel + 1` each is proved from the walks at `fuel`. -/
theorem walks (A : Prop) : ∀ fuel, Walks A fuel
  | 0 => ⟨keeps_lowerDecl fun _ h => absurd h (Nat.succ_ne_zero _).symm,
      fun _ => by rw [cloneWithComposer]; exact Keeps.throw _,
      fun _ _ => by rw [lowerCall]; exact Keeps.throw _,
      fun _ _ => by rw [bodyNested]; exact Keeps.throw _⟩
  | fuel + 1 =>
    have ih := walks A fuel
    ⟨keeps_lowerDecl fun _ h => Nat.succ.inj h ▸ ih.clone, keeps_clone ih, keeps_lowerCall ih,
      keeps_bodyNested ih⟩

end Composer

end ComposeLowering
