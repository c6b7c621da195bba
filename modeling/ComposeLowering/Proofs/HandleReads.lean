import Mathlib
import ComposeLowering.Proofs.Interner
import ComposeLowering.Ty.Render
import ComposeLowering.Ir.Zero

/-!
# Reading the type of a handle

The interner's queries on a handle (the type it stands for, whether a part of it is composable,
its written form, its zero value) recurse through the parts of stored types, that is through
handles, not through a tree: nothing in their definitions makes the recursion end. They are
written as `TypeInterner.foldParts`, with the size of the table as fuel.

What makes them end is the order of the table: every part of a stored type is stored before it
(`Consistent.parts_lt`), an invariant that every call of the interface keeps, the flag updates
and the substitution of type parameters included. So a read of a handle goes down at most as
many levels as the handle's index, and the table's size is always fuel enough
(`Consistent.exists_foldParts_typeStep`). A read that ends also keeps its answer when given
more fuel or a table that has grown since (`foldParts_typeStep_of_le`,
`foldParts_typeStep_of_extending`), so on a consistent table the type of a handle does not
depend on how it is read (`Consistent.foldParts_typeStep_eq`).

The other queries agree with the corresponding functions on the tree the handle stands for
(`hasComposable_of_typeOf`, `render_of_typeOf`): a query whose step agrees with a tree function
one level at a time agrees with it on every handle (`foldParts_of_typeStep`). A handle stands
for one tree that no other handle stands for (`Consistent.typeOf_injective`). The main statement,
`Reachable.reads_finish`, puts these together for every interner that the interface reaches.
-/

namespace ComposeLowering

/-! ## Lists and options related element by element -/

/-- Mapping a step of `Except` over a list succeeds only by succeeding on each element. -/
theorem List.forall₂_of_mapM_eq_ok {ε α β : Type} {f : α → Except ε β} :
    ∀ {xs : List α} {ys : List β}, xs.mapM f = .ok ys → List.Forall₂ (fun a b => f a = .ok b) xs ys
  | [], ys, h => by
    cases h
    exact List.Forall₂.nil
  | a :: xs, ys, h => by
    rw [List.mapM_cons] at h
    cases hf : f a with
    | error e => simp [hf, bind, Except.bind] at h
    | ok b =>
      cases hrest : xs.mapM f with
      | error e => simp [hf, hrest, bind, Except.bind] at h
      | ok bs =>
        simp only [hf, hrest, bind, Except.bind, pure, Except.pure, Except.ok.injEq] at h
        subst h
        exact List.Forall₂.cons hf (List.forall₂_of_mapM_eq_ok hrest)

theorem List.mapM_eq_ok_of_forall₂ {ε α β : Type} {f : α → Except ε β} {xs : List α}
    {ys : List β} (h : List.Forall₂ (fun a b => f a = .ok b) xs ys) : xs.mapM f = .ok ys := by
  induction h with
  | nil => rfl
  | cons hb _ ih => simp [List.mapM_cons, hb, ih, bind, Except.bind, pure, Except.pure]

theorem Option.mapM_eq_ok_iff_rel {ε α β : Type} {f : α → Except ε β} {o : Option α}
    {o' : Option β} : o.mapM f = .ok o' ↔ Option.Rel (fun a b => f a = .ok b) o o' := by
  cases o with
  | none => cases o' <;> simp [Option.mapM_none, pure, Except.pure]
  | some a =>
    rw [Option.mapM_some]
    cases hf : f a with
    | error e => cases o' <;> simp [hf, Functor.map, Except.map]
    | ok b =>
      cases o' with
      | none => simp [Functor.map, Except.map]
      | some b' => simp [hf, Functor.map, Except.map, Option.rel_some_some]

/-- Elements related to something, all of them: a list related to the whole list. -/
theorem List.exists_forall₂ {α β : Type} {R : α → β → Prop} :
    ∀ {l : List α}, (∀ a ∈ l, ∃ b, R a b) → ∃ ys, List.Forall₂ R l ys
  | [], _ => ⟨[], List.Forall₂.nil⟩
  | a :: xs, h => by
    obtain ⟨b, hb⟩ := h a List.mem_cons_self
    obtain ⟨ys, hys⟩ := List.exists_forall₂ fun a' ha' => h a' (List.mem_cons_of_mem _ ha')
    exact ⟨b :: ys, List.Forall₂.cons hb hys⟩

/-- A relation between lists weakens to any relation implied by it on the elements of the left
list. -/
theorem List.forall₂_imp_of_mem {α β : Type} {R S : α → β → Prop} :
    ∀ {xs : List α} {ys : List β}, (∀ a ∈ xs, ∀ b, R a b → S a b) → List.Forall₂ R xs ys →
      List.Forall₂ S xs ys
  | _, _, _, .nil => .nil
  | _ :: _, _ :: _, h, .cons hab hrest =>
    .cons (h _ List.mem_cons_self _ hab)
      (List.forall₂_imp_of_mem (fun a ha => h a (List.mem_cons_of_mem _ ha)) hrest)

/-- Each element of a list related to another is related to something. -/
theorem List.exists_of_mem_forall₂ {α β : Type} {R : α → β → Prop} {a : α} :
    ∀ {xs : List α} {ys : List β}, List.Forall₂ R xs ys → a ∈ xs → ∃ b, R a b
  | _, _, .nil, ha => nomatch ha
  | _ :: _, _ :: _, .cons hab hrest, ha => by
    rcases List.mem_cons.1 ha with rfl | ha
    · exact ⟨_, hab⟩
    · exact List.exists_of_mem_forall₂ hrest ha

/-- Two lists related to one list by a relation that relates only equal elements to a common
one are equal. -/
theorem List.eq_of_forall₂ {α β : Type} {R : α → β → Prop} :
    ∀ {xs xs' : List α} {ys : List β}, (∀ a ∈ xs, ∀ a' ∈ xs', ∀ b, R a b → R a' b → a = a') →
      List.Forall₂ R xs ys → List.Forall₂ R xs' ys → xs = xs'
  | _, _, _, _, .nil, .nil => rfl
  | a :: _, a' :: _, b :: _, huniq, .cons hab hrest, .cons hab' hrest' => by
    rw [huniq a List.mem_cons_self a' List.mem_cons_self b hab hab',
      List.eq_of_forall₂ (fun x hx x' hx' => huniq x (List.mem_cons_of_mem _ hx) x'
        (List.mem_cons_of_mem _ hx')) hrest hrest']

/-! ## Shapes related part by part -/

namespace Shape

variable {α β : Type}

/-- The parts of a shape, in order. -/
def parts : Shape α → List α
  | .base _ | .param _ => []
  | .cls _ args u => args ++ u.toList
  | .fn ps r => ps ++ [r]

/-- Two shapes of one form whose parts are related by `R`, in order. -/
inductive Rel (R : α → β → Prop) : Shape α → Shape β → Prop
  | base (b : Base) : Rel R (.base b) (.base b)
  | cls (name : String) {args : List α} {args' : List β} {u : Option α} {u' : Option β} :
      List.Forall₂ R args args' → Option.Rel R u u' → Rel R (.cls name args u) (.cls name args' u')
  | fn {ps : List α} {ps' : List β} {r : α} {r' : β} :
      List.Forall₂ R ps ps' → R r r' → Rel R (.fn ps r) (.fn ps' r')
  | param (p : Nat) : Rel R (.param p) (.param p)

variable {R S : α → β → Prop} {s : Shape α} {s' : Shape β}

/-- Stepping through the parts of a shape succeeds exactly when it succeeds on each part. -/
theorem mapM_eq_ok_iff {ε : Type} {f : α → Except ε β} :
    s.mapM f = .ok s' ↔ Rel (fun a b => f a = .ok b) s s' := by
  cases s with
  | base b =>
    simp only [Shape.mapM, pure, Except.pure, Except.ok.injEq]
    exact ⟨fun h => h ▸ .base b, fun h => by cases h; rfl⟩
  | param p =>
    simp only [Shape.mapM, pure, Except.pure, Except.ok.injEq]
    exact ⟨fun h => h ▸ .param p, fun h => by cases h; rfl⟩
  | cls name args u =>
    constructor
    · intro h
      simp only [Shape.mapM, bind, Except.bind] at h
      split at h <;> rename_i hargs
      · cases h
      · split at h <;> rename_i hu
        · cases h
        · cases h
          exact .cls name (List.forall₂_of_mapM_eq_ok hargs) (Option.mapM_eq_ok_iff_rel.1 hu)
    · rintro ⟨⟩
      rename_i args' u' hargs hu
      simp [Shape.mapM, List.mapM_eq_ok_of_forall₂ hargs, Option.mapM_eq_ok_iff_rel.2 hu, bind,
        Except.bind, pure, Except.pure]
  | fn ps r =>
    constructor
    · intro h
      simp only [Shape.mapM, bind, Except.bind] at h
      split at h <;> rename_i hps
      · cases h
      · split at h <;> rename_i hr
        · cases h
        · cases h
          exact .fn (List.forall₂_of_mapM_eq_ok hps) hr
    · rintro ⟨⟩
      rename_i ps' r' hps hr
      simp [Shape.mapM, List.mapM_eq_ok_of_forall₂ hps, hr, bind, Except.bind, pure, Except.pure]

/-- Related shapes stay related by a weaker relation on their parts. -/
theorem Rel.imp_parts (h : ∀ a ∈ s.parts, ∀ b, R a b → S a b) (hR : Rel R s s') : Rel S s s' := by
  cases hR with
  | base b => exact .base b
  | param p => exact .param p
  | cls name hargs hu =>
    refine .cls name (List.forall₂_imp_of_mem (fun a ha b hab => h a (by simp [parts, ha]) b hab)
      hargs) ?_
    cases hu with
    | none => exact .none
    | some hab => exact .some (h _ (by simp [parts]) _ hab)
  | fn hps hr =>
    exact .fn (List.forall₂_imp_of_mem (fun a ha b hab => h a (by simp [parts, ha]) b hab) hps)
      (h _ (by simp [parts]) _ hr)

theorem Rel.imp (h : ∀ a b, R a b → S a b) (hR : Rel R s s') : Rel S s s' :=
  hR.imp_parts fun a _ b => h a b

/-- Each part of a related shape is related to something. -/
theorem Rel.exists_of_mem_parts (hR : Rel R s s') {a : α} (ha : a ∈ s.parts) : ∃ b, R a b := by
  cases hR with
  | base b => simp [parts] at ha
  | param p => simp [parts] at ha
  | cls name hargs hu =>
    simp only [parts, List.mem_append, Option.mem_toList] at ha
    rcases ha with ha | rfl
    · exact List.exists_of_mem_forall₂ hargs ha
    · cases hu with
      | some hab => exact ⟨_, hab⟩
  | fn hps hr =>
    simp only [parts, List.mem_append, List.mem_singleton] at ha
    rcases ha with ha | rfl
    · exact List.exists_of_mem_forall₂ hps ha
    · exact ⟨_, hr⟩

/-- A shape whose parts are each related to something is related to a shape. -/
theorem exists_rel (h : ∀ a ∈ s.parts, ∃ b, R a b) : ∃ s' : Shape β, Rel R s s' := by
  cases s with
  | base b => exact ⟨_, .base b⟩
  | param p => exact ⟨_, .param p⟩
  | cls name args u =>
    obtain ⟨args', hargs⟩ := List.exists_forall₂ (l := args) fun a ha => h a (by simp [parts, ha])
    cases u with
    | none => exact ⟨_, .cls name hargs .none⟩
    | some a =>
      obtain ⟨b, hb⟩ := h a (by simp [parts])
      exact ⟨_, .cls name hargs (.some hb)⟩
  | fn ps r =>
    obtain ⟨ps', hps⟩ := List.exists_forall₂ (l := ps) fun a ha => h a (by simp [parts, ha])
    obtain ⟨r', hr⟩ := h r (by simp [parts])
    exact ⟨_, .fn hps hr⟩

/-- Two shapes related to one shape, by a relation that relates only equal parts to a common
one, are equal. -/
theorem Rel.eq {s₁ s₂ : Shape α}
    (huniq : ∀ a ∈ s₁.parts, ∀ a' ∈ s₂.parts, ∀ b, R a b → R a' b → a = a')
    (h₁ : Rel R s₁ s') (h₂ : Rel R s₂ s') : s₁ = s₂ := by
  cases h₁ with
  | base b => cases h₂; rfl
  | param p => cases h₂; rfl
  | cls name hargs hu =>
    cases h₂ with
    | cls _ hargs' hu' =>
      rw [List.eq_of_forall₂ (fun a ha a' ha' => huniq a (by simp [parts, ha]) a'
        (by simp [parts, ha'])) hargs hargs']
      cases hu with
      | none => cases hu'; rfl
      | some hab =>
        cases hu' with
        | some hab' => rw [huniq _ (by simp [parts]) _ (by simp [parts]) _ hab hab']
  | fn hps hr =>
    cases h₂ with
    | fn hps' hr' =>
      rw [List.eq_of_forall₂ (fun a ha a' ha' => huniq a (by simp [parts, ha]) a'
        (by simp [parts, ha'])) hps hps', huniq _ (by simp [parts]) _ (by simp [parts]) _ hr hr']

end Shape

theorem TyData.parts_eq (d : TyData) : d.parts = d.shape.parts := by
  obtain ⟨s, n, c⟩ := d
  cases s <;> rfl

/-- Asking a test of each element of a list, in order, where the test of each element gives `F`
of its partner: whether `F` holds of some partner. -/
theorem List.anyM_eq_ok_of_forall₂ {ε α β : Type} {g : α → Except ε Bool} {F : β → Bool}
    {xs : List α} {ys : List β} (h : List.Forall₂ (fun a b => g a = .ok (F b)) xs ys) :
    xs.anyM g = .ok (ys.any F) := by
  induction h with
  | nil => rfl
  | cons hb _ ih =>
    rw [List.anyM_cons, List.any_cons]
    simp only [hb, bind, Except.bind]
    cases F _ with
    | true => rfl
    | false => exact ih

namespace TypeInterner

variable {t t' : TypeInterner} {h : Nat} {T : Ty}

/-! ## Reads through the parts of a handle -/

theorem foldParts_zero {α : Type} (step : TyData → (Nat → Except Fault α) → Except Fault α)
    (h : Nat) : t.foldParts step 0 h = .error .recursionLimit := rfl

theorem foldParts_succ {α : Type} (step : TyData → (Nat → Except Fault α) → Except Fault α)
    (fuel h : Nat) :
    t.foldParts step (fuel + 1) h =
      if hh : h < t.types.size then step t.types[h] (t.foldParts step fuel)
      else .error (.indexOutOfBounds t.types.size h) := by
  rw [foldParts]
  rfl

/-- A read gives nothing for a handle past the table. -/
theorem lt_size_of_foldParts {α : Type} {step : TyData → (Nat → Except Fault α) → Except Fault α}
    {fuel : Nat} {a : α} (hT : t.foldParts step fuel h = .ok a) : h < t.types.size := by
  cases fuel with
  | zero => cases hT
  | succ fuel =>
    rw [foldParts_succ] at hT
    by_cases hh : h < t.types.size
    · exact hh
    · rw [dif_neg hh] at hT
      cases hT

/-- A stored type is rebuilt exactly when each of its parts is read: into a tree of the same
form, with the same flags. -/
theorem typeStep_eq_ok_iff {d : TyData} {part : Nat → Except Fault Ty} :
    typeStep d part = .ok T ↔
      ∃ s, Shape.Rel (fun p U => part p = .ok U) d.shape s ∧ T = ⟨s, d.nullable, d.composable⟩ := by
  unfold typeStep
  cases hs : d.shape.mapM part with
  | error e => simp [bind, Except.bind, ← Shape.mapM_eq_ok_iff, hs]
  | ok s =>
    simp only [bind, Except.bind, pure, Except.pure, Except.ok.injEq, ← Shape.mapM_eq_ok_iff, hs]
    exact ⟨fun h => ⟨s, rfl, h.symm⟩, fun ⟨_, h, hT⟩ => h ▸ hT.symm⟩

/-- A read of a type that ends keeps its answer with more fuel. -/
theorem foldParts_typeStep_succ {fuel : Nat} :
    ∀ {h T}, t.foldParts typeStep fuel h = .ok T → t.foldParts typeStep (fuel + 1) h = .ok T := by
  induction fuel with
  | zero => intro h T hT; cases hT
  | succ fuel ih =>
    intro h T hT
    have hh := lt_size_of_foldParts hT
    rw [foldParts_succ, dif_pos hh] at hT ⊢
    obtain ⟨s, hs, rfl⟩ := typeStep_eq_ok_iff.1 hT
    exact typeStep_eq_ok_iff.2 ⟨s, hs.imp fun _ _ hp => ih hp, rfl⟩

theorem foldParts_typeStep_of_le {fuel fuel' : Nat} (hle : fuel ≤ fuel')
    (hT : t.foldParts typeStep fuel h = .ok T) : t.foldParts typeStep fuel' h = .ok T := by
  induction hle with
  | refl => exact hT
  | step _ ih => exact foldParts_typeStep_succ ih

/-- A read of a type that ends keeps its answer in a table that has grown: it reads only
handles of the old table, which keep their stored types. -/
theorem foldParts_typeStep_of_extending (hg : extending.rel t t') {fuel : Nat} :
    ∀ {h T}, t.foldParts typeStep fuel h = .ok T → t'.foldParts typeStep fuel h = .ok T := by
  induction fuel with
  | zero => intro h T hT; cases hT
  | succ fuel ih =>
    intro h T hT
    have hh := lt_size_of_foldParts hT
    obtain ⟨hh', heq⟩ := getElem_of_extending hg hh
    rw [foldParts_succ, dif_pos hh] at hT
    rw [foldParts_succ, dif_pos hh', heq]
    obtain ⟨s, hs, rfl⟩ := typeStep_eq_ok_iff.1 hT
    exact typeStep_eq_ok_iff.2 ⟨s, hs.imp fun _ _ hp => ih hp, rfl⟩

/-- On a consistent table a read of a stored handle ends once the fuel exceeds the handle: each
part is stored before the type, so each level down needs one unit of fuel less. -/
theorem Consistent.exists_foldParts_typeStep (hI : Consistent t) {fuel : Nat} :
    ∀ {h}, h < t.types.size → h < fuel → ∃ T, t.foldParts typeStep fuel h = .ok T := by
  induction fuel with
  | zero => intro h _ hlt; omega
  | succ fuel ih =>
    intro h hh hlt
    rw [foldParts_succ, dif_pos hh]
    have hparts : ∀ p ∈ t.types[h].shape.parts, ∃ U, t.foldParts typeStep fuel p = .ok U := by
      intro p hp
      have hph := hI.parts_lt h hh p (by rw [TyData.parts_eq]; exact hp)
      exact ih (by omega) (by omega)
    obtain ⟨s, hs⟩ := Shape.exists_rel hparts
    exact ⟨_, typeStep_eq_ok_iff.2 ⟨s, hs, rfl⟩⟩

/-- On a consistent table every stored handle stands for a type. -/
theorem Consistent.exists_typeOf (hI : Consistent t) (hh : h < t.types.size) :
    ∃ T, t.typeOf h = .ok T :=
  hI.exists_foldParts_typeStep hh hh

theorem lt_size_of_typeOf (hT : t.typeOf h = .ok T) : h < t.types.size :=
  lt_size_of_foldParts hT

/-- On a consistent table every read of a stored handle with fuel enough gives its type. -/
theorem Consistent.foldParts_typeStep_eq (hI : Consistent t) {fuel : Nat} (hh : h < t.types.size)
    (hf : h < fuel) : t.foldParts typeStep fuel h = t.typeOf h := by
  obtain ⟨T, hT⟩ := hI.exists_foldParts_typeStep hh hf
  obtain ⟨T', hT'⟩ := hI.exists_typeOf hh
  -- both reads keep their answers with the larger of the two fuels
  have h₁ := foldParts_typeStep_of_le (le_max_left fuel t.types.size) hT
  have h₂ := foldParts_typeStep_of_le (le_max_right fuel t.types.size) hT'
  rw [hT, hT', Except.ok.inj (h₁.symm.trans h₂)]

/-- The type of a handle survives the growth of the table. -/
theorem typeOf_of_extending (hg : extending.rel t t') (hT : t.typeOf h = .ok T) :
    t'.typeOf h = .ok T :=
  foldParts_typeStep_of_le (size_le_of_extending hg) (foldParts_typeStep_of_extending hg hT)

/-- On a consistent table the type of a handle is its stored type with each part replaced by the
type of that part. -/
theorem Consistent.typeOf_eq_ok_iff (hI : Consistent t) (hh : h < t.types.size) :
    t.typeOf h = .ok T ↔ typeStep t.types[h] t.typeOf = .ok T := by
  obtain ⟨n, hn⟩ : ∃ n, t.types.size = n + 1 := ⟨t.types.size - 1, by omega⟩
  -- the parts are read with one unit of fuel less, which is still enough for each of them
  have hpart : ∀ p ∈ t.types[h].shape.parts, t.foldParts typeStep n p = t.typeOf p := by
    intro p hp
    have hph := hI.parts_lt h hh p (by rw [TyData.parts_eq]; exact hp)
    exact hI.foldParts_typeStep_eq (by omega) (by omega)
  rw [typeOf, hn, foldParts_succ, dif_pos (hn ▸ hh), typeStep_eq_ok_iff, typeStep_eq_ok_iff]
  constructor
  · rintro ⟨s, hs, rfl⟩
    exact ⟨s, hs.imp_parts fun p hp U hU => (hpart p hp) ▸ hU, rfl⟩
  · rintro ⟨s, hs, rfl⟩
    exact ⟨s, hs.imp_parts fun p hp U hU => (hpart p hp).symm ▸ hU, rfl⟩

/-- A stored type is determined by its shape and flags. -/
theorem TyData.eq_of_fields {d d' : TyData} (hs : d.shape = d'.shape)
    (hn : d.nullable = d'.nullable) (hc : d.composable = d'.composable) : d = d' := by
  cases d
  cases d'
  simp_all

/-- On a consistent table two handles that stand for one type are one handle: the two stored
types have the same flags and the same form, with parts that stand for the same types, hence
are the same parts by induction, and a type is stored once. -/
theorem Consistent.typeOf_injective (hI : Consistent t) {h₁ h₂ : Nat} {T : Ty}
    (hT₁ : t.typeOf h₁ = .ok T) (hT₂ : t.typeOf h₂ = .ok T) : h₁ = h₂ := by
  -- by induction on the sum of the two handles: parts are below the type they belong to
  induction hn : h₁ + h₂ using Nat.strong_induction_on generalizing h₁ h₂ T with
  | _ n ih =>
  have hh₁ := lt_size_of_typeOf hT₁
  have hh₂ := lt_size_of_typeOf hT₂
  obtain ⟨s₁, hs₁, rfl⟩ := typeStep_eq_ok_iff.1 ((hI.typeOf_eq_ok_iff hh₁).1 hT₁)
  obtain ⟨s₂, hs₂, hT⟩ := typeStep_eq_ok_iff.1 ((hI.typeOf_eq_ok_iff hh₂).1 hT₂)
  simp only [Ty.mk.injEq] at hT
  obtain ⟨rfl, hnl, hc⟩ := hT
  have hshape : t.types[h₁].shape = t.types[h₂].shape := by
    refine Shape.Rel.eq (fun a ha a' ha' U hU hU' => ?_) hs₁ hs₂
    have ha₁ := hI.parts_lt h₁ hh₁ a (by rw [TyData.parts_eq]; exact ha)
    have ha₂ := hI.parts_lt h₂ hh₂ a' (by rw [TyData.parts_eq]; exact ha')
    exact ih (a + a') (by omega) hU hU' rfl
  exact (hI.handle_eq_iff hh₁ hh₂).2 (TyData.eq_of_fields hshape hnl hc)

/-! ## Queries agree with the type a handle stands for -/

/-- A query whose step answers for a stored type as `F` does for its type, when asked of parts
that answer as `F` does for theirs, answers for every handle as `F` does for the handle's type. -/
theorem foldParts_of_typeStep {α : Type} {step : TyData → (Nat → Except Fault α) → Except Fault α}
    {F : Ty → α} (hstep : ∀ d part s, Shape.Rel (fun p U => part p = .ok (F U)) d.shape s →
      step d part = .ok (F ⟨s, d.nullable, d.composable⟩)) {fuel : Nat} :
    ∀ {h T}, t.foldParts typeStep fuel h = .ok T → t.foldParts step fuel h = .ok (F T) := by
  induction fuel with
  | zero => intro h T hT; cases hT
  | succ fuel ih =>
    intro h T hT
    have hh := lt_size_of_foldParts hT
    rw [foldParts_succ, dif_pos hh] at hT ⊢
    obtain ⟨s, hs, rfl⟩ := typeStep_eq_ok_iff.1 hT
    exact hstep _ _ s (hs.imp fun _ _ hp => ih hp)

/-- One level of the search for a composable part answers as `Ty.hasComposable`. -/
theorem markStep_composable {d : TyData} {part : Nat → Except Fault Bool} {s : Shape Ty}
    (hs : Shape.Rel (fun p U => part p = .ok U.hasComposable) d.shape s) :
    markStep (·.composable) d part = .ok (Ty.hasComposable ⟨s, d.nullable, d.composable⟩) := by
  obtain ⟨shape, nl, c⟩ := d
  cases c with
  | true => cases s <;> rfl
  | false =>
    cases hs with
    | base b => rfl
    | param p => rfl
    | cls name hargs _ =>
      simp only [markStep, Bool.false_eq_true, if_false, Ty.hasComposable, Bool.false_or,
        Ty.anyHasComposable_eq_any]
      exact List.anyM_eq_ok_of_forall₂ hargs
    | fn hps hr =>
      simp only [markStep, Bool.false_eq_true, if_false, Ty.hasComposable, Bool.false_or,
        Ty.anyHasComposable_eq_any, bind, Except.bind, List.anyM_eq_ok_of_forall₂ hps]
      cases List.any _ _ with
      | true => rfl
      | false => exact hr

theorem hasComposable_of_typeOf (hT : t.typeOf h = .ok T) :
    t.hasComposable h = .ok T.hasComposable :=
  foldParts_of_typeStep (fun _ _ _ hs => markStep_composable hs) hT

/-- One level of writing a type answers as `Ty.render`. -/
theorem renderStep_render (paramName : Nat → String) {d : TyData}
    {part : Nat → Except Fault String} {s : Shape Ty}
    (hs : Shape.Rel (fun p U => part p = .ok (U.render paramName)) d.shape s) :
    renderStep paramName d part = .ok (Ty.render paramName ⟨s, d.nullable, d.composable⟩) := by
  obtain ⟨shape, nl, c⟩ := d
  -- each part is written as its type is
  have hall : ∀ {xs : List Nat} {ys : List Ty},
      List.Forall₂ (fun p U => part p = .ok (U.render paramName)) xs ys →
        xs.mapM part = .ok (Ty.renderAll paramName ys) := fun hxs => by
    rw [Ty.renderAll_eq_map]
    exact List.mapM_eq_ok_of_forall₂ (List.forall₂_map_right_iff.2 hxs)
  cases hs with
  | base b => rfl
  | param p => rfl
  | @cls name args args' u u' hargs hu =>
    by_cases he : args = []
    · subst he
      cases hargs
      rfl
    · -- a class with arguments has the same number of them in its type
      have he' : args' ≠ [] := fun h => he (by subst h; cases hargs; rfl)
      simp only [renderStep, Ty.render, List.isEmpty_iff, he, he', if_false, hall hargs, bind,
        Except.bind, pure, Except.pure]
  | fn hps hr =>
    simp only [renderStep, Ty.render, hall hps, hr, bind, Except.bind, pure, Except.pure]

theorem render_of_typeOf (paramName : Nat → String) (hT : t.typeOf h = .ok T) :
    t.render paramName h = .ok (T.render paramName) :=
  foldParts_of_typeStep (fun _ _ _ hs => renderStep_render paramName hs) hT

theorem zeroValue_of_typeOf (hT : t.typeOf h = .ok T) : t.zeroValue h = .ok T.zeroValue := by
  rw [zeroValue, hT]
  rfl

/-! ## Every read of a reachable interner ends -/

/-- **Reads of a handle end.** In every interner that the interface reaches, each part of a
stored type (class argument, underlying type of an inline class, function parameter or result)
is stored before it. So every query that recurses through the parts of a handle ends within the
size of the table: the handle stands for a type, and whether a part of it is composable, its
written form and its zero value are those of that type; substituting type parameters in it
succeeds. -/
theorem Reachable.reads_finish {t : TypeInterner} (ht : Reachable t) :
    (∀ h (hh : h < t.types.size), ∀ p ∈ t.types[h].parts, p < h) ∧
    ∀ h < t.types.size, ∃ T, t.typeOf h = .ok T ∧ t.hasComposable h = .ok T.hasComposable ∧
      (∀ paramName, t.render paramName h = .ok (T.render paramName)) ∧
      t.zeroValue h = .ok T.zeroValue ∧ ∀ σ, ∃ h' t', remap σ h t = .ok (h', t') := by
  have hI := ht.inv
  refine ⟨hI.parts_lt, fun h hh => ?_⟩
  obtain ⟨T, hT⟩ := hI.exists_typeOf hh
  refine ⟨T, hT, hasComposable_of_typeOf hT, fun f => render_of_typeOf f hT,
    zeroValue_of_typeOf hT, fun σ => ?_⟩
  -- the substitution is a call of the interface, passed a handle of the table
  obtain ⟨h', t', hrun, -⟩ :=
    InternerCall.run_ok hI (.remap σ h) (by simp [InternerCall.handles, hh])
  exact ⟨h', t', hrun⟩

/-- In the interner holding `Box<T>?`, whose class refers to the parameter stored before it,
every read of a handle ends. -/
theorem boxInterner_reads_finish : Reachable boxInterner ∧
    (∀ h (hh : h < boxInterner.types.size), ∀ p ∈ boxInterner.types[h].parts, p < h) ∧
    ∀ h < boxInterner.types.size, ∃ T, boxInterner.typeOf h = .ok T ∧
      boxInterner.hasComposable h = .ok T.hasComposable ∧
      (∀ paramName, boxInterner.render paramName h = .ok (T.render paramName)) ∧
      boxInterner.zeroValue h = .ok T.zeroValue ∧ ∀ σ, ∃ h' t', remap σ h boxInterner = .ok (h', t') :=
  ⟨reachable_boxInterner, Reachable.reads_finish reachable_boxInterner⟩

end TypeInterner

end ComposeLowering
