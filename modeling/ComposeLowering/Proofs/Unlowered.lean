import ComposeLowering.Proofs.Arena

/-!
# Modules that nothing has lowered yet

Before the composer pass runs, no parameter of a module is a composer and no call in it is
marked as lowered (`Module.Unlowered`). The front end hands over such modules, and the decoy
passes that run before the composer pass keep them so: they copy declarations, rename
parameters, strip defaults and retarget calls, but never add a composer or mark a call. This file
shows that each edit of the arena those passes make keeps the property.
-/

namespace ComposeLowering

/-- A node that is not a call marked as lowered. -/
def Expr.Unmarked (e : Expr) : Prop := ∀ c, e.call? = some c → c.composable = false

namespace Expr

@[simp] theorem unmarked_call_iff {tgt : CallTarget} {d x : Option Expr} {ta : List Ty}
    {args : List (Option Expr)} {cc : Bool} {t : Ty} :
    (Expr.call tgt d x ta args cc t).Unmarked ↔ cc = false :=
  ⟨fun h => h _ rfl, fun h c hc => by cases hc; exact h⟩

theorem unmarked_of_callShape_none {e : Expr} (h : e.callShape? = none) : e.Unmarked := by
  intro c hc
  cases e <;> simp_all [callShape?, call?]

/-- Whether a node is marked is read off its call shape. -/
theorem unmarked_of_callShape {e e' : Expr} (h : e'.callShape? = e.callShape?)
    (he : e.Unmarked) : e'.Unmarked := by
  intro c hc
  cases e' with
  | call tgt d x ta args cc t =>
    cases hc
    cases e with
    | call tgt' d' x' ta' args' cc' t' =>
      simp only [callShape?, Option.some.injEq, Prod.mk.injEq] at h
      rw [h.2.1]
      exact he ⟨tgt', d', x', ta', args', cc'⟩ rfl
    | _ => simp [callShape?] at h
  | _ => simp [call?] at hc

/-- A node rebuilt with its call shape from unmarked children is unmarked throughout. -/
theorem all_unmarked_of_rebuilt {e e' : Expr} (hshape : e'.callShape? = e.callShape?)
    (hchildren : ∀ c ∈ e'.children, c.All Unmarked) (he : e.All Unmarked) : e'.All Unmarked :=
  All.rebuilt (fun h => unmarked_of_callShape h) hshape hchildren he

/-- A node with no children that is no call is unmarked throughout. -/
theorem all_unmarked_of_leaf {e : Expr} (hc : e.children = []) (hs : e.callShape? = none) :
    e.All Unmarked :=
  all_iff.2 ⟨unmarked_of_callShape_none hs, by simp [hc]⟩

/-- A node that is no call, over unmarked children, is unmarked throughout. -/
theorem all_unmarked_of_children {e : Expr} (hs : e.callShape? = none)
    (hc : ∀ c ∈ e.children, c.All Unmarked) : e.All Unmarked :=
  all_iff.2 ⟨unmarked_of_callShape_none hs, hc⟩

end Expr

/-- No parameter of the declaration is a composer, and no call in its defaults and body is
marked as lowered. -/
structure Decl.Unlowered (x : Decl) : Prop where
  /-- No parameter is a composer. -/
  no_composer : ∀ p ∈ x.params, p.origin ≠ .composer
  /-- No call is marked as lowered. -/
  unmarked : ∀ e ∈ x.owned, e.All Expr.Unmarked

/-- Nothing in the module is lowered yet. -/
def Module.Unlowered (m : Module) : Prop := ∀ d, (m.decl d).Unlowered

namespace Decl.Unlowered

variable {x : Decl}

/-- The defaults of an unlowered declaration are unmarked. -/
theorem default_unmarked (h : x.Unlowered) {p : Param} (hp : p ∈ x.params) :
    ∀ e ∈ p.default, e.All Expr.Unmarked :=
  fun e he => h.unmarked e (List.mem_append_left _ (List.mem_filterMap.2 ⟨p, hp, he⟩))

/-- The body of an unlowered declaration is unmarked. -/
theorem body_unmarked (h : x.Unlowered) : ∀ e ∈ x.body, e.All Expr.Unmarked :=
  fun e he => h.unmarked e (List.mem_append_right _ (Option.mem_toList.2 he))

/-- Parameters of the same origins and defaults and a body that are unmarked keep a
declaration unlowered. -/
theorem of_parts {y : Decl} (h : x.Unlowered)
    (horigin : y.params.map (·.origin) = x.params.map (·.origin))
    (hdefaults : ∀ e ∈ y.params.filterMap (·.default), e.All Expr.Unmarked)
    (hbody : ∀ e ∈ y.body, e.All Expr.Unmarked) : y.Unlowered where
  no_composer p hp := by
    have : p.origin ∈ x.params.map (·.origin) := horigin ▸ List.mem_map_of_mem hp
    obtain ⟨q, hq, hqp⟩ := List.mem_map.1 this
    exact hqp ▸ h.no_composer q hq
  unmarked e he := by
    rcases List.mem_append.1 he with he | he
    · exact hdefaults e he
    · exact hbody e (Option.mem_toList.1 he)

end Decl.Unlowered

/-- Every call of a declaration, anywhere in the arena, goes to a declaration of the arena and
has one argument slot per parameter of it. -/
def Module.ArityFits (m : Module) : Prop :=
  ∀ d, ∀ e ∈ (m.decl d).nodes, ∀ c, e.call? = some c → ∀ t, c.target = .decl t →
    t < m.decls.size ∧ c.args.length = (m.decl t).params.length

namespace Module

/-- A well-formed module in which no call is marked is unlowered: well-formedness already rules
out composer parameters. -/
theorem WellFormed.unlowered {m : Module} (hwf : m.WellFormed)
    (hcalls : ∀ d, ∀ e ∈ (m.decl d).nodes, e.Unmarked) : m.Unlowered := fun d =>
  { no_composer := fun p hp hc => by
      have := (hwf.not_lowered d p (List.mem_append_right _ hp)).1
      rw [hc] at this
      exact Bool.noConfusion this
    unmarked := Decl.forall_nodes_iff.1 (hcalls d) }

/-- `Unlowered`, computed on the arena. -/
def checkUnlowered (m : Module) : Bool :=
  (List.range m.decls.size).all fun d =>
    (m.decl d).params.all (fun p => p.origin != .composer) &&
      (m.decl d).nodes.all fun e => match e.call? with
        | some c => !c.composable
        | none => true

theorem unlowered_of_check {m : Module} (h : m.checkUnlowered = true) : m.Unlowered := by
  intro d
  by_cases hd : d < m.decls.size
  · simp only [checkUnlowered, List.all_eq_true, List.mem_range, Bool.and_eq_true] at h
    obtain ⟨hparams, hnodes⟩ := h d hd
    refine ⟨fun p hp => by simpa using hparams p hp, Decl.forall_nodes_iff.1 fun e he c hc => ?_⟩
    have := hnodes e he
    rw [hc] at this
    simpa using this
  · rw [decl_of_size_le (Nat.le_of_not_lt hd)]
    exact ⟨fun _ h => absurd h List.not_mem_nil, fun _ h => absurd h List.not_mem_nil⟩

end Module

namespace Module.Unlowered

variable {m : Module}

theorem of_decls_eq {m' : Module} (h : m.Unlowered) (hd : m'.decls = m.decls) : m'.Unlowered :=
  fun d => Module.decl_congr m hd d ▸ h d

theorem reparented {m' : Module} (h : m.Unlowered) (hr : m.Reparented m') : m'.Unlowered :=
  fun d => ⟨hr.params_eq d ▸ (h d).no_composer, hr.owned_eq d ▸ (h d).unmarked⟩

theorem modifyDecl (h : m.Unlowered) {i : DeclId} {f : Decl → Decl}
    (hf : (f (m.decl i)).Unlowered) : (m.modifyDecl i f).Unlowered := by
  intro d
  rw [Module.decl_modifyDecl]
  split
  · rename_i hi
    exact hi.1 ▸ hf
  · exact h d

/-- A change of one declaration that keeps every declaration unlowered keeps the module so. -/
theorem modifyDecl_of (h : m.Unlowered) {i : DeclId} {f : Decl → Decl}
    (hf : ∀ x : Decl, x.Unlowered → (f x).Unlowered) : (m.modifyDecl i f).Unlowered :=
  modifyDecl h (hf _ (h i))

theorem allocDecl (h : m.Unlowered) {x : Decl} (hx : x.Unlowered) : (m.allocDecl x).1.Unlowered := by
  intro d
  rw [Module.decl_allocDecl]
  split
  · exact hx
  · exact h d

/-- Taking out defaults and a body keeps a module unlowered. -/
theorem takeExprs (h : m.Unlowered) (i : DeclId) : (m.takeExprs i).1.Unlowered := by
  intro d
  rw [Module.takeExprs_fst, Module.decl_setDecl]
  split
  · exact (h i).of_parts (by simp) (by simp) (by simp)
  · exact h d

/-- The defaults and body taken out of an unlowered module are unmarked. -/
theorem takeExprs_unmarked (h : m.Unlowered) (i : DeclId) :
    (∀ o ∈ (m.takeExprs i).2.defaults, ∀ e ∈ o, e.All Expr.Unmarked) ∧
      ∀ e ∈ (m.takeExprs i).2.body, e.All Expr.Unmarked := by
  rw [Module.takeExprs_snd]
  refine ⟨fun o ho => ?_, (h i).body_unmarked⟩
  obtain ⟨p, hp, rfl⟩ := List.mem_map.1 ho
  exact (h i).default_unmarked hp

/-- Putting back unmarked defaults and an unmarked body keeps a module unlowered. -/
theorem putExprs (h : m.Unlowered) {i : DeclId} {x : DeclExprs}
    (hdefaults : ∀ o ∈ x.defaults, ∀ e ∈ o, e.All Expr.Unmarked)
    (hbody : ∀ e ∈ x.body, e.All Expr.Unmarked) : (m.putExprs i x).Unlowered := by
  refine modifyDecl h ((h i).of_parts (by simp [map_origin_putDefaults]) (fun e he => ?_) hbody)
  rcases mem_owned_putDefaults he with he | he
  · obtain ⟨o, ho, rfl⟩ := List.mem_filterMap.1 he
    exact hdefaults _ ho e rfl
  · obtain ⟨p, hp, hpe⟩ := List.mem_filterMap.1 he
    exact (h i).default_unmarked hp e hpe

end Module.Unlowered

end ComposeLowering
