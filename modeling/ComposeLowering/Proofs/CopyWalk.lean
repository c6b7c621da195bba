import ComposeLowering.Proofs.Renaming
import ComposeLowering.Proofs.CopyRanking

/-!
# The copier's walk

The copier walks a declaration tree once, in the order `Module.declOccurrences` lists, and
records a fresh index for each binding when it meets it; every reference is renamed by what is
recorded when the reference is met. This module follows the copier step by step against that
list of occurrences.

`Walks m C x occ out` says this of one step `x`: run from a state that keeps the original module
`m` (`Good`), it faults only at the recursion limit; when it succeeds it only grows the arenas
(`Step`), its renamings grow by entries for exactly the names `occ` binds, each to an index past
the arenas it started from (`Records`), and under every renaming that extends the final one,
has distinct keys and for which `occ` is scoped (`Admits`), and that satisfies the guard `C`,
its result is `out`, and each declaration it binds is copied (`DeclsCopied`).

Steps compose by `Walks.bind`, whose second step's guard knows the first step's result; a step
that reads the state or allocates is a primitive walk. `walks_copyExpr` and `walks_copyDecl`
assemble the copier from them, by induction on the expression and on the nesting fuel.
-/

namespace ComposeLowering

/-- The size of one arena of a module. -/
def Module.arenaSize (m : Module) : Kind → Nat
  | .decl => m.decls.size
  | .value => m.values.size
  | .typeParam => m.typeParams.size

namespace CopyState

open StepSemantics

/-- The renamings a copy has recorded. -/
def recorded (s : CopyState) : Renaming := ⟨s.decls, s.values, s.typeParams⟩

/-! ## States and steps -/

section Defs

variable (m : Module)

/-- What a copy started in `m` keeps in its state: `m`'s declarations, arenas no smaller than
`m`'s, and renamings to distinct indices allocated past `m`'s arenas. -/
structure Good (s : CopyState) : Prop where
  decl_eq : ∀ y < m.decls.size, s.module.decl y = m.decl y
  size_ge : ∀ k, m.arenaSize k ≤ s.module.arenaSize k
  fresh : ∀ k, ∀ p ∈ s.recorded.map k, m.arenaSize k ≤ p.2 ∧ p.2 < s.module.arenaSize k
  nodup : ∀ k, ((s.recorded.map k).map Prod.snd).Nodup

/-- The values a walk binds are named in `m`, and the declarations it binds are in its arena. -/
def Named (occ : List Occurrence) : Prop :=
  (∀ v ∈ keysOf .value occ, v < m.values.size) ∧ ∀ x ∈ keysOf .decl occ, x < m.decls.size

/-- Each declaration a walk binds is copied, under `ρ`, to the copy of its original in `m`. -/
def DeclsCopied (ρ : Renaming) (s : CopyState) (occ : List Occurrence) : Prop :=
  ∀ x ∈ keysOf .decl occ, s.module.decl (ρ.apply .decl x) = ρ.copy (m.decl x)

end Defs

/-- A step from `s` to `s'` only grows the arenas and leaves the declarations that were there. -/
structure Step (s s' : CopyState) : Prop where
  size_le : ∀ k, s.module.arenaSize k ≤ s'.module.arenaSize k
  decl_eq : ∀ y < s.module.decls.size, s'.module.decl y = s.module.decl y

/-- The renamings grew from `s` to `s'` by entries for exactly the names `occ` binds, the latest
first, each to an index past the arena of `s`. -/
def Records (s s' : CopyState) (occ : List Occurrence) : Prop :=
  ∀ k, ∃ pre, s'.recorded.map k = pre ++ s.recorded.map k ∧
    pre.map Prod.fst = (keysOf k occ).reverse ∧ ∀ p ∈ pre, s.module.arenaSize k ≤ p.2

/-- A renaming under which a walk from `s` to `s'` is read: it extends the renamings of `s'`, has
distinct keys, and the walk refers to a name it renames only after that name is bound, before
the walk or by it. -/
structure Admits (ρ : Renaming) (s s' : CopyState) (occ : List Occurrence) : Prop where
  grows : ρ.Extends s'.recorded
  keys_nodup : ρ.KeysNodup
  inScope : scopedFrom ρ.dom s.recorded.dom occ = true

variable {m : Module}

/-- A step of the copier that walks `occ` and yields `out`, under the renamings that satisfy
`C`. -/
def Walks (m : Module) (C : Renaming → Prop) {α : Type} (x : M α) (occ : List Occurrence)
    (out : Renaming → α) : Prop :=
  ∀ s, Good m s → Named m occ →
    (∀ e, sem.run x s = .error e → e = .recursionLimit) ∧
    ∀ a s', sem.run x s = .ok (a, s') → Good m s' ∧ Step s s' ∧ Records s s' occ ∧
      ∀ ρ, C ρ → Admits ρ s s' occ → a = out ρ ∧ DeclsCopied m ρ s' occ

theorem Step.refl (s : CopyState) : Step s s := ⟨fun _ => Nat.le_refl _, fun _ _ => rfl⟩

theorem Step.trans {s₁ s₂ s₃ : CopyState} (h₁ : Step s₁ s₂) (h₂ : Step s₂ s₃) : Step s₁ s₃ :=
  ⟨fun k => Nat.le_trans (h₁.size_le k) (h₂.size_le k), fun y hy => by
    rw [h₂.decl_eq y (Nat.lt_of_lt_of_le hy (h₁.size_le .decl)), h₁.decl_eq y hy]⟩

theorem Records.nil (s : CopyState) : Records s s [] :=
  fun _ => ⟨[], rfl, rfl, fun _ h => by cases h⟩

theorem Records.recorded_extends {s s' : CopyState} {occ : List Occurrence}
    (h : Records s s' occ) : s'.recorded.Extends s.recorded := fun k => by
  obtain ⟨pre, hpre, -, -⟩ := h k
  exact ⟨pre, hpre⟩

/-- After a walk, the names it bound and those bound before have entries. -/
theorem Records.mem_dom {s s' : CopyState} {occ : List Occurrence} (h : Records s s' occ) :
    ∀ n ∈ (binders occ).reverse ++ s.recorded.dom, n ∈ s'.recorded.dom := by
  intro n hn
  rcases List.mem_append.1 hn with hn | hn
  · obtain ⟨pre, hpre, hkeys, -⟩ := h n.kind
    rw [Renaming.mem_dom, hpre, List.map_append, hkeys]
    exact List.mem_append_left _ (List.mem_reverse.2 (mem_keysOf.2 (List.mem_reverse.1 hn)))
  · exact h.recorded_extends.dom_sub hn

theorem Records.append {s₁ s₂ s₃ : CopyState} {l₁ l₂ : List Occurrence} (h₁ : Records s₁ s₂ l₁)
    (hstep : Step s₁ s₂) (h₂ : Records s₂ s₃ l₂) : Records s₁ s₃ (l₁ ++ l₂) := fun k => by
  obtain ⟨p₁, e₁, k₁, f₁⟩ := h₁ k
  obtain ⟨p₂, e₂, k₂, f₂⟩ := h₂ k
  refine ⟨p₂ ++ p₁, by rw [e₂, e₁, List.append_assoc], by simp [k₁, k₂], fun p hp => ?_⟩
  rcases List.mem_append.1 hp with hp | hp
  · exact Nat.le_trans (hstep.size_le k) (f₂ p hp)
  · exact f₁ p hp

/-- Under a renaming that extends the final one, with distinct keys, a name the walk bound goes
to its entry, past the arena as it was before the walk. -/
theorem Records.apply_mem {s s' : CopyState} {occ : List Occurrence} (h : Records s s' occ)
    {ρ : Renaming} (hρ : ρ.Extends s'.recorded) (hnd : ρ.KeysNodup) {k : Kind} {i : Nat}
    (hi : i ∈ keysOf k occ) :
    (i, ρ.apply k i) ∈ s'.recorded.map k ∧ s.module.arenaSize k ≤ ρ.apply k i := by
  obtain ⟨pre, hpre, hkeys, hfresh⟩ := h k
  have hkey : i ∈ pre.map Prod.fst := by
    rw [hkeys]
    exact List.mem_reverse.2 hi
  obtain ⟨⟨i', j⟩, hj, rfl⟩ := List.mem_map.1 hkey
  have hmem : (i', j) ∈ s'.recorded.map k := hpre ▸ List.mem_append_left _ hj
  rw [Renaming.apply_of_mem hρ hnd hmem]
  exact ⟨hmem, hfresh _ hj⟩

/-- A renaming that admits a walk in two parts admits its first part. -/
theorem Admits.left {ρ : Renaming} {s₁ s₂ s₃ : CopyState} {l₁ l₂ : List Occurrence}
    (h : Admits ρ s₁ s₃ (l₁ ++ l₂)) (h₂ : Records s₂ s₃ l₂) : Admits ρ s₁ s₂ l₁ where
  grows := h.grows.trans h₂.recorded_extends
  keys_nodup := h.keys_nodup
  inScope := by
    have := h.inScope
    rw [scopedFrom_append, Bool.and_eq_true] at this
    exact this.1

/-- A renaming that admits a walk in two parts admits its second part, after the first. -/
theorem Admits.right {ρ : Renaming} {s₁ s₂ s₃ : CopyState} {l₁ l₂ : List Occurrence}
    (h : Admits ρ s₁ s₃ (l₁ ++ l₂)) (h₁ : Records s₁ s₂ l₁) : Admits ρ s₂ s₃ l₂ where
  grows := h.grows
  keys_nodup := h.keys_nodup
  inScope := by
    have := h.inScope
    rw [scopedFrom_append, Bool.and_eq_true] at this
    exact scopedFrom_mono h₁.mem_dom this.2

theorem named_append {l₁ l₂ : List Occurrence} (h : Named m (l₁ ++ l₂)) :
    Named m l₁ ∧ Named m l₂ := by
  simp only [Named, keysOf_append, List.mem_append] at h
  exact ⟨⟨fun v hv => h.1 v (.inl hv), fun x hx => h.2 x (.inl hx)⟩,
    ⟨fun v hv => h.1 v (.inr hv), fun x hx => h.2 x (.inr hx)⟩⟩

/-- A name a walk bound is renamed into the arena as it is after the walk. -/
theorem Records.apply_lt {s s' : CopyState} {occ : List Occurrence} (h : Records s s' occ)
    (hs' : Good m s') {ρ : Renaming} (hρ : ρ.Extends s'.recorded) (hnd : ρ.KeysNodup) {k : Kind}
    {i : Nat} (hi : i ∈ keysOf k occ) : ρ.apply k i < s'.module.arenaSize k :=
  (hs'.fresh k _ (h.apply_mem hρ hnd hi).1).2

/-! ## Composing walks -/

theorem Walks.congr {C : Renaming → Prop} {α : Type} {x : M α} {occ occ' : List Occurrence}
    {out out' : Renaming → α} (h : Walks m C x occ out) (hocc : occ = occ')
    (hout : ∀ ρ, C ρ → out' ρ = out ρ) : Walks m C x occ' out' := fun s hs hn => by
  subst hocc
  refine ⟨(h s hs hn).1, fun a s' hx => ?_⟩
  obtain ⟨hs', hstep, hrec, hres⟩ := (h s hs hn).2 a s' hx
  refine ⟨hs', hstep, hrec, fun ρ hρ hadm => ?_⟩
  obtain ⟨ha, hcopied⟩ := hres ρ hρ hadm
  exact ⟨ha.trans (hout ρ hρ).symm, hcopied⟩

theorem Walks.pure {C : Renaming → Prop} {α : Type} (a : α) :
    Walks m C (Pure.pure a : M α) [] fun _ => a := fun s hs _ => by
  refine ⟨fun e h => (by cases h), fun a' s' h => ?_⟩
  cases h
  exact ⟨hs, Step.refl _, Records.nil _, fun _ _ _ => ⟨rfl, fun x hx => by cases hx⟩⟩

/-- Two steps in sequence walk the first's occurrences, then the second's; the second step's
guard may use the first's result. -/
theorem Walks.bind {C : Renaming → Prop} {α β : Type} {x : M α} {f : α → M β}
    {l₁ l₂ : List Occurrence} {out₁ : Renaming → α} {out₂ : α → Renaming → β}
    (hx : Walks m C x l₁ out₁) (hf : ∀ a, Walks m (fun ρ => C ρ ∧ out₁ ρ = a) (f a) l₂ (out₂ a)) :
    Walks m C (x >>= f) (l₁ ++ l₂) fun ρ => out₂ (out₁ ρ) ρ := by
  intro s hs hn
  obtain ⟨hn₁, hn₂⟩ := named_append hn
  refine ⟨fun e h => ?_, fun b s' h => ?_⟩
  · rcases sem.bind_error h with h | ⟨a, s₁, h₁, h⟩
    · exact (hx s hs hn₁).1 e h
    · exact (hf a s₁ ((hx s hs hn₁).2 a s₁ h₁).1 hn₂).1 e h
  · obtain ⟨a, s₁, h₁, h₂⟩ := sem.bind_ok h
    obtain ⟨hs₁, hstep₁, hrec₁, hres₁⟩ := (hx s hs hn₁).2 a s₁ h₁
    obtain ⟨hs', hstep₂, hrec₂, hres₂⟩ := (hf a s₁ hs₁ hn₂).2 b s' h₂
    refine ⟨hs', hstep₁.trans hstep₂, hrec₁.append hstep₁ hrec₂, fun ρ hρ hadm => ?_⟩
    obtain ⟨ha, hcopied₁⟩ := hres₁ ρ hρ (hadm.left hrec₂)
    obtain ⟨hb, hcopied₂⟩ := hres₂ ρ ⟨hρ, ha.symm⟩ (hadm.right hrec₁)
    refine ⟨by rw [hb, ha], fun y hy => ?_⟩
    rw [keysOf_append] at hy
    rcases List.mem_append.1 hy with hy | hy
    · -- copied by the first step, and left as it was by the second
      rw [hstep₂.decl_eq _ (hrec₁.apply_lt hs₁ (hadm.grows.trans hrec₂.recorded_extends)
        hadm.keys_nodup hy)]
      exact hcopied₁ y hy
    · exact hcopied₂ y hy

/-- Steps over a list, in order. -/
theorem Walks.mapM {C : Renaming → Prop} {α β : Type} {f : α → M β}
    {occ : α → List Occurrence} {out : α → Renaming → β} :
    ∀ (xs : List α), (∀ x ∈ xs, ∀ C, Walks m C (f x) (occ x) (out x)) →
      Walks m C (xs.mapM f) (xs.flatMap occ) fun ρ => xs.map fun x => out x ρ
  | [], _ => Walks.pure []
  | x :: xs, h => by
    rw [List.mapM_cons]
    refine (Walks.bind (h x List.mem_cons_self C) fun b =>
      Walks.bind (Walks.mapM xs fun y hy => h y (List.mem_cons_of_mem _ hy)) fun bs =>
        Walks.pure (b :: bs)).congr (by simp) fun ρ _ => rfl

/-- A step over an optional value. -/
theorem Walks.option {C : Renaming → Prop} {α β : Type} {f : α → M β}
    {occ : α → List Occurrence} {out : α → Renaming → β} (o : Option α)
    (h : ∀ x ∈ o, ∀ C, Walks m C (f x) (occ x) (out x)) :
    Walks m C (o.mapM f) (o.toList.flatMap occ) fun ρ => o.map fun x => out x ρ := by
  cases o with
  | none => exact Walks.pure none
  | some x =>
    refine (Walks.bind (h x rfl C) fun b => Walks.pure (some b)).congr (by simp) fun ρ _ => rfl

/-- A step that, from each state it may start in, runs as some walking step does. -/
theorem Walks.of_run_eq {C : Renaming → Prop} {α : Type} {x : M α} {occ : List Occurrence}
    {out : Renaming → α}
    (h : ∀ s, Good m s → Named m occ → ∃ y, sem.run x s = sem.run y s ∧ Walks m C y occ out) :
    Walks m C x occ out := fun s hs hn => by
  obtain ⟨y, hrun, hy⟩ := h s hs hn
  rw [hrun]
  exact hy s hs hn

/-- A step that only reads the renamings, binds nothing, and yields what every admitted
renaming says. -/
theorem Walks.read {C : Renaming → Prop} {α : Type} {g : CopyState → α} {occ : List Occurrence}
    {out : Renaming → α} (hocc : binders occ = [])
    (h : ∀ s ρ, Admits ρ s s occ → g s = out ρ) :
    Walks m C (get >>= fun s => Pure.pure (g s)) occ out := fun s hs _ => by
  have hrun : sem.run (get >>= fun s => Pure.pure (g s) : M α) s = .ok (g s, s) := rfl
  have hkeys : ∀ k, keysOf k occ = [] := fun k => by simp [keysOf, hocc]
  refine ⟨fun e he => (by rw [hrun] at he; cases he), fun a s' hx => ?_⟩
  rw [hrun] at hx
  cases hx
  refine ⟨hs, Step.refl _, fun k => ⟨[], rfl, by simp [hkeys], fun _ h => by cases h⟩,
    fun ρ _ hadm => ⟨h s ρ hadm, fun x hx => ?_⟩⟩
  simp [hkeys] at hx

/-- A read of the renamings, followed by a step on what was read. -/
theorem Walks.read_bind {C : Renaming → Prop} {α β : Type} {g : CopyState → α} (K : α → M β)
    {l₁ l₂ : List Occurrence} {out₁ : Renaming → α} {out₂ : α → Renaming → β}
    (hg : Walks m C (get >>= fun s => Pure.pure (g s)) l₁ out₁)
    (hK : ∀ a, Walks m (fun ρ => C ρ ∧ out₁ ρ = a) (K a) l₂ (out₂ a)) :
    Walks m C (get >>= fun s => K (g s)) (l₁ ++ l₂) fun ρ => out₂ (out₁ ρ) ρ := by
  have h : (get >>= fun s => K (g s)) = ((get >>= fun s => Pure.pure (g s)) >>= K) := by
    simp only [bind_assoc, pure_bind]
  rw [h]
  exact hg.bind hK

/-- An index read through the renaming of its arena is renamed as every admitted renaming
says: the walk refers to it after its binding, if it has one. -/
theorem walks_lookup {C : Renaming → Prop} (k : Kind) (i : Nat) :
    Walks m C (get >>= fun s => Pure.pure (((s.recorded.map k).lookup i).getD i))
      [.refers ⟨k, i⟩] fun ρ => ρ.apply k i :=
  Walks.read rfl fun s ρ hadm => by
    refine (Renaming.apply_eq_of_extends hadm.grows hadm.keys_nodup fun hi => ?_).symm
    simpa [scopedFrom, hi] using hadm.inScope

theorem walks_remapTy {C : Renaming → Prop} (t : Ty) :
    Walks m C (remapTy t) t.occurrences fun ρ => ρ.ty t :=
  Walks.read (by simp) fun s ρ hadm =>
    (Renaming.ty_eq_of_extends hadm.grows hadm.keys_nodup fun p hp =>
      (scopedFrom_refers _ _ _ _).1 hadm.inScope p hp).symm

/-- Recording a key of arena `k` against the index just allocated at the end of that arena
keeps a state good; the step records exactly that binding. -/
theorem Good.record {s : CopyState} (hs : Good m s) (s' : CopyState) (k : Kind) (key : Nat)
    (hsize : ∀ k', s'.module.arenaSize k' = s.module.arenaSize k' + if k' = k then 1 else 0)
    (hmap : ∀ k', s'.recorded.map k' =
      (if k' = k then [(key, s.module.arenaSize k)] else []) ++ s.recorded.map k')
    (hdecl : ∀ y < s.module.decls.size, s'.module.decl y = s.module.decl y) :
    Good m s' ∧ Step s s' ∧ Records s s' [.binds ⟨k, key⟩] := by
  have hstep : Step s s' := ⟨fun k' => by rw [hsize k']; omega, hdecl⟩
  refine ⟨⟨fun y hy => ?_, fun k' => ?_, fun k' p hp => ?_, fun k' => ?_⟩, hstep, fun k' => ?_⟩
  · rw [hdecl y (Nat.lt_of_lt_of_le hy (hs.size_ge .decl)), hs.decl_eq y hy]
  · exact Nat.le_trans (hs.size_ge k') (hstep.size_le k')
  · rw [hmap k'] at hp
    rcases List.mem_append.1 hp with hp | hp
    · by_cases hk : k' = k
      · subst hk
        simp only [if_pos, List.mem_singleton] at hp
        subst hp
        exact ⟨hs.size_ge k', by rw [hsize]; simp⟩
      · simp [hk] at hp
    · exact ⟨(hs.fresh k' p hp).1, Nat.lt_of_lt_of_le (hs.fresh k' p hp).2 (hstep.size_le k')⟩
  · -- the fresh index is past every index recorded before
    rw [hmap k', List.map_append, List.nodup_append]
    refine ⟨by split <;> simp, hs.nodup k', fun a ha b hb => ?_⟩
    by_cases hk : k' = k
    · subst hk
      simp only [if_pos, List.map_cons, List.map_nil, List.mem_singleton] at ha
      obtain ⟨p, hp, rfl⟩ := List.mem_map.1 hb
      have := (hs.fresh k' p hp).2
      omega
    · simp [hk] at ha
  · refine ⟨if k' = k then [(key, s.module.arenaSize k)] else [], hmap k', ?_, ?_⟩
    · by_cases hk : k' = k
      · subst hk
        simp [keysOf]
      · simp [keysOf, hk, Ne.symm hk]
    · by_cases hk : k' = k
      · subst hk
        simp
      · simp [hk]

/-- A step that allocates an index at the end of arena `k` (not the declarations', whose copies
are filled in later), records it for `key`, and yields what `f` makes of it, binds `key`. -/
theorem walks_record {C : Renaming → Prop} {α : Type} {x : M α} (k : Kind) (hk : k ≠ .decl)
    (key : Nat) (f : Nat → α) (next : CopyState → CopyState)
    (hrun : ∀ s, sem.run x s = .ok (f (s.module.arenaSize k), next s))
    (hsize : ∀ s k', (next s).module.arenaSize k' = s.module.arenaSize k' + if k' = k then 1 else 0)
    (hmap : ∀ s k', (next s).recorded.map k' =
      (if k' = k then [(key, s.module.arenaSize k)] else []) ++ s.recorded.map k')
    (hdecls : ∀ s, (next s).module.decls = s.module.decls) :
    Walks m C x [.binds ⟨k, key⟩] fun ρ => f (ρ.apply k key) := fun s hs _ => by
  refine ⟨fun e he => (by rw [hrun] at he; cases he), fun a s' hx => ?_⟩
  rw [hrun] at hx
  cases hx
  obtain ⟨hs', hstep, hrec⟩ :=
    hs.record (next s) k key (hsize s) (hmap s) fun y _ => Module.decl_congr _ (hdecls s) y
  have hmem : (key, s.module.arenaSize k) ∈ (next s).recorded.map k := by simp [hmap s k]
  refine ⟨hs', hstep, hrec, fun ρ _ hadm => ⟨?_, fun y hy => by simp [keysOf, hk] at hy⟩⟩
  exact congrArg f (Renaming.apply_of_mem hadm.grows hadm.keys_nodup hmem).symm

/-- Allocating a value for `key` and recording it binds `key` to the fresh value. -/
theorem walks_newValue_record {C : Renaming → Prop} (name : String) (key : ValueId) :
    Walks m C (newValue name >>= fun v =>
        modify (fun s : CopyState => { s with values := (key, v) :: s.values }) >>= fun _ =>
          Pure.pure v)
      [.binds ⟨.value, key⟩] fun ρ => ρ.apply .value key :=
  walks_record .value (by decide) key id
    (fun s => { s with module := (s.module.newValue name).1
                       values := (key, s.module.values.size) :: s.values }) (fun _ => rfl)
    (fun _ k' => by cases k' <;> simp [Module.arenaSize, Module.newValue])
    (fun _ k' => by cases k' <;> simp [recorded, Renaming.map, Module.arenaSize]) fun _ => rfl

/-- A fresh value recorded for `key`, then a step on it. -/
theorem Walks.bindValue {C : Renaming → Prop} {β : Type} (name : String) (key : ValueId)
    {K : ValueId → M β} {l : List Occurrence} {out : ValueId → Renaming → β}
    (hK : ∀ v, Walks m (fun ρ => C ρ ∧ ρ.apply .value key = v) (K v) l (out v)) :
    Walks m C (newValue name >>= fun v =>
        modify (fun s : CopyState => { s with values := (key, v) :: s.values }) >>= fun _ => K v)
      (.binds ⟨.value, key⟩ :: l) fun ρ => out (ρ.apply .value key) ρ := by
  have h : (newValue name >>= fun v =>
        modify (fun s : CopyState => { s with values := (key, v) :: s.values }) >>= fun _ => K v) =
      ((newValue name >>= fun v =>
        modify (fun s : CopyState => { s with values := (key, v) :: s.values }) >>= fun _ =>
          Pure.pure v) >>= K) := by
    simp only [bind_assoc, pure_bind]
  rw [h]
  exact (walks_newValue_record name key).bind hK

/-- A copied receiver or parameter binds its value, then meets its types. -/
theorem walks_copyParam {C : Renaming → Prop} (p : Param) :
    Walks m C (copyParam p) p.occurrences fun ρ => ρ.receiver p := by
  unfold copyParam
  refine Walks.congr (Walks.bindValue p.name p.value fun v =>
    Walks.bind (walks_remapTy p.ty) fun ty =>
      Walks.bind (Walks.option p.vararg fun t _ _ => walks_remapTy t) fun vararg =>
        Walks.pure { p with value := v, ty, vararg }) ?_ fun ρ _ => rfl
  simp [Param.occurrences]

/-- A copied type parameter is bound to a fresh one. -/
theorem walks_copyTypeParam {C : Renaming → Prop} (tp : TypeParam) :
    Walks m C (do
        let s ← get
        let (m', id) := s.module.newTypeParam tp.name
        set { s with module := m', typeParams := (tp.id, id) :: s.typeParams }
        return { tp with id })
      [.binds ⟨.typeParam, tp.id⟩] fun ρ => { tp with id := ρ.apply .typeParam tp.id } :=
  walks_record .typeParam (by decide) tp.id (fun id => { tp with id })
    (fun s => { s with module := (s.module.newTypeParam tp.name).1
                       typeParams := (tp.id, s.module.typeParams.size) :: s.typeParams })
    (fun _ => rfl)
    (fun _ k' => by cases k' <;> simp [Module.arenaSize, Module.newTypeParam])
    (fun _ k' => by cases k' <;> simp [recorded, Renaming.map, Module.arenaSize]) fun _ => rfl

/-! ## Copying an expression -/

/-- A fault that does not happen: the run goes on with the value. -/
theorem run_get_liftExcept {α β : Type} (f : CopyState → Except Fault α) (R : α → M β)
    {s : CopyState} {a : α} (h : f s = .ok a) :
    sem.run (get >>= fun s => liftExcept (f s) >>= R) s = sem.run (R a) s := by
  show (liftExcept (f s) >>= R) s = R a s
  unfold liftExcept
  rw [h]
  rfl

/-- The value a `let` binds, named after its original and recorded, then a step on it. -/
theorem Walks.bindLet {C : Renaming → Prop} {β : Type} (key : ValueId) {K : ValueId → M β}
    {l : List Occurrence} {out : ValueId → Renaming → β}
    (hK : ∀ v, Walks m (fun ρ => C ρ ∧ ρ.apply .value key = v) (K v) l (out v)) :
    Walks m C (get >>= fun s => liftExcept (s.module.valueName key) >>= fun name =>
        newValue name >>= fun v =>
          modify (fun s : CopyState => { s with values := (key, v) :: s.values }) >>= fun _ => K v)
      (.binds ⟨.value, key⟩ :: l) fun ρ => out (ρ.apply .value key) ρ := by
  refine Walks.of_run_eq fun s hs hn => ?_
  -- the original value is named in the module, so its name is found
  have hkey : key < s.module.values.size :=
    Nat.lt_of_lt_of_le (hn.1 key (by simp [keysOf])) (hs.size_ge .value)
  obtain ⟨name, hname⟩ : ∃ name, s.module.valueName key = .ok name :=
    ⟨s.module.values[key], by simp [Module.valueName, hkey]⟩
  exact ⟨_, run_get_liftExcept (fun s => s.module.valueName key) _ hname,
    Walks.bindValue name key hK⟩

section Expr

variable {nested : DeclId → M DeclId} {nestedOcc : DeclId → List Occurrence}
  (hnested : ∀ d C, Walks m C (nested d) (nestedOcc d) fun ρ => ρ.apply .decl d)
include hnested

/-- Copying an expression walks its occurrences, the nested declarations' walks being
`nestedOcc`, and yields the expression renamed. -/
theorem walks_copyExpr (e : Expr) (C : Renaming → Prop) :
    Walks m C (copyExpr nested e) (e.occurrences nestedOcc) fun ρ => ρ.expr e := by
  have hchild : ∀ c ∈ e.children, ∀ C, Walks m C (copyExpr nested c) (c.occurrences nestedOcc)
      fun ρ => ρ.expr c := fun c hc C => walks_copyExpr c C
  have hlist : ∀ xs : List Expr, (∀ c ∈ xs, c ∈ e.children) → ∀ C,
      Walks m C (xs.mapM (copyExpr nested)) (xs.flatMap (Expr.occurrences nestedOcc))
        fun ρ => xs.map ρ.expr := fun xs hxs C => Walks.mapM xs fun c hc => hchild c (hxs c hc)
  have hopt : ∀ o : Option Expr, (∀ c ∈ o, c ∈ e.children) → ∀ C,
      Walks m C (o.mapM (copyExpr nested)) (o.toList.flatMap (Expr.occurrences nestedOcc))
        fun ρ => o.map ρ.expr := fun o ho C => Walks.option o fun c hc => hchild c (ho c hc)
  rw [copyExpr.eq_def, Expr.occurrences_eq]
  dsimp only
  cases e with
  | const c ty =>
    refine Walks.congr (Walks.bind (walks_remapTy ty) fun t =>
      Walks.bind (Walks.pure (Expr.const c ty)) fun e' => Walks.pure (e'.withTy t)) ?_ ?_
    · simp [Expr.ty, Expr.headOccurrences, Expr.children, Expr.tailOccurrences]
    · exact fun ρ _ => ρ.expr_eq _
  | get v ty =>
    refine Walks.congr (Walks.bind (walks_remapTy ty) fun t =>
      Walks.bind (walks_lookup .value v) fun v' => Walks.pure (Expr.get v' t)) ?_ ?_
    · simp [Expr.ty, Expr.headOccurrences, Expr.children, Expr.tailOccurrences]
    · exact fun ρ _ => ρ.expr_eq _
  | maskBit v b ty =>
    refine Walks.congr (Walks.bind (walks_remapTy ty) fun t =>
      Walks.bind (walks_lookup .value v) fun v' => Walks.pure (Expr.maskBit v' b t)) ?_ ?_
    · simp [Expr.ty, Expr.headOccurrences, Expr.children, Expr.tailOccurrences]
    · exact fun ρ _ => ρ.expr_eq _
  | set v x ty =>
    refine Walks.congr (Walks.bind (walks_remapTy ty) fun t =>
      Walks.bind (walks_lookup .value v) fun v' =>
        Walks.bind (hchild x (by simp [Expr.children]) _) fun x' =>
          Walks.pure (Expr.set v' x' t)) ?_ ?_
    · simp [Expr.ty, Expr.headOccurrences, Expr.children, Expr.tailOccurrences]
    · exact fun ρ _ => ρ.expr_eq _
  | ret r x ty =>
    refine Walks.congr (Walks.bind (walks_remapTy ty) fun t =>
      Walks.read_bind (fun r' => copyExpr nested x >>= fun x' => Pure.pure (Expr.ret r' x' t))
        (walks_lookup .decl r) fun r' =>
          Walks.bind (hchild x (by simp [Expr.children]) _) fun x' =>
            Walks.pure (Expr.ret r' x' t)) ?_ ?_
    · simp [Expr.ty, Expr.headOccurrences, Expr.children, Expr.tailOccurrences]
    · exact fun ρ _ => ρ.expr_eq _
  | letVal v x ty =>
    refine Walks.congr (Walks.bind (walks_remapTy ty) fun t =>
      Walks.bind (hchild x (by simp [Expr.children]) _) fun x' =>
        Walks.bindLet v fun v' => Walks.pure (Expr.letVal v' x' t)) ?_ ?_
    · simp [Expr.ty, Expr.headOccurrences, Expr.children, Expr.tailOccurrences]
    · exact fun ρ _ => ρ.expr_eq _
  | fn d ty =>
    refine Walks.congr (Walks.bind (walks_remapTy ty) fun t =>
      Walks.bind (Walks.bind (hnested d _) fun d' => Walks.pure (Expr.fn d' ty)) fun e' =>
        Walks.pure (e'.withTy t)) ?_ ?_
    · simp [Expr.ty, Expr.headOccurrences, Expr.children, Expr.tailOccurrences]
    · exact fun ρ _ => ρ.expr_eq _
  | inlineNew x ty =>
    refine Walks.congr (Walks.bind (walks_remapTy ty) fun t =>
      Walks.bind (Walks.bind (hchild x (by simp [Expr.children]) _) fun x' =>
        Walks.pure (Expr.inlineNew x' ty)) fun e' => Walks.pure (e'.withTy t)) ?_ ?_
    · simp [Expr.ty, Expr.headOccurrences, Expr.children, Expr.tailOccurrences]
    · exact fun ρ _ => ρ.expr_eq _
  | block xs ty =>
    dsimp only
    rw [show (Expr.block xs ty).traverseChildren (fun c _ => copyExpr nested c) nested = _ from
      (Expr.mapChildrenM_list (copyExpr nested) nested xs ty .statements).1]
    refine Walks.congr (Walks.bind (walks_remapTy ty) fun t =>
      Walks.bind (Walks.bind (hlist xs (fun c hc => by simpa [Expr.children] using hc) _) fun ys =>
        Walks.pure (Expr.block ys ty)) fun e' => Walks.pure (e'.withTy t)) ?_ ?_
    · simp [Expr.ty, Expr.headOccurrences, Expr.children, Expr.tailOccurrences]
    · intro ρ _
      rw [Renaming.expr_eq, (Expr.mapChildren_list ρ.expr xs ty .statements).1]
      rfl
  | composite o xs ty =>
    dsimp only
    rw [show (Expr.composite o xs ty).traverseChildren (fun c _ => copyExpr nested c) nested
      = _ from
      (Expr.mapChildrenM_list (copyExpr nested) nested xs ty o).2.1]
    refine Walks.congr (Walks.bind (walks_remapTy ty) fun t =>
      Walks.bind (Walks.bind (hlist xs (fun c hc => by simpa [Expr.children] using hc) _) fun ys =>
        Walks.pure (Expr.composite o ys ty)) fun e' => Walks.pure (e'.withTy t)) ?_ ?_
    · simp [Expr.ty, Expr.headOccurrences, Expr.children, Expr.tailOccurrences]
    · intro ρ _
      rw [Renaming.expr_eq, (Expr.mapChildren_list ρ.expr xs ty o).2.1]
      rfl
  | vararg xs ty =>
    dsimp only
    rw [show (Expr.vararg xs ty).traverseChildren (fun c _ => copyExpr nested c) nested = _ from
      (Expr.mapChildrenM_list (copyExpr nested) nested xs ty .statements).2.2]
    refine Walks.congr (Walks.bind (walks_remapTy ty) fun t =>
      Walks.bind (Walks.bind (hlist xs (fun c hc => by simpa [Expr.children] using hc) _) fun ys =>
        Walks.pure (Expr.vararg ys ty)) fun e' => Walks.pure (e'.withTy t)) ?_ ?_
    · simp [Expr.ty, Expr.headOccurrences, Expr.children, Expr.tailOccurrences]
    · intro ρ _
      rw [Renaming.expr_eq, (Expr.mapChildren_list ρ.expr xs ty .statements).2.2]
      rfl
  | ite c a b ty =>
    dsimp only
    rw [show (Expr.ite c a b ty).traverseChildren (fun c _ => copyExpr nested c) nested = _ from
      Expr.mapChildrenM_ite (f := copyExpr nested) (g := nested) c a b ty]
    refine Walks.congr (Walks.bind (walks_remapTy ty) fun t =>
      Walks.bind (Walks.bind (hchild c (by simp [Expr.children]) _) fun c' =>
        Walks.bind (hchild a (by simp [Expr.children]) _) fun a' =>
          Walks.bind (hopt b (fun y hy => by simp [Expr.children, Option.mem_def.1 hy]) _) fun b' =>
            Walks.pure (Expr.ite c' a' b' ty)) fun e' => Walks.pure (e'.withTy t)) ?_ ?_
    · simp [Expr.ty, Expr.headOccurrences, Expr.children, Expr.tailOccurrences]
    · intro ρ _
      rw [Renaming.expr_eq, Expr.mapChildren_ite]
      rfl
  | call tgt d x ta as cc ty =>
    have hd : ∀ y ∈ d, y ∈ (Expr.call tgt d x ta as cc ty).children := by
      intro y hy; simp [Expr.children, Option.mem_def.1 hy]
    have hx : ∀ y ∈ x, y ∈ (Expr.call tgt d x ta as cc ty).children := by
      intro y hy; simp [Expr.children, Option.mem_def.1 hy]
    have ha : ∀ o ∈ as, ∀ y ∈ o, y ∈ (Expr.call tgt d x ta as cc ty).children := by
      intro o ho y hy
      simp only [Expr.children, List.mem_append, List.mem_filterMap, id]
      exact .inr ⟨o, ho, hy⟩
    -- the children are copied first; the rebuilt node is a call, whose target and type
    -- arguments are renamed last
    dsimp only
    rw [show (Expr.call tgt d x ta as cc ty).traverseChildren (fun c _ => copyExpr nested c) nested
      = _ from Expr.mapChildrenM_call (f := copyExpr nested) (g := nested) tgt d x ta as cc ty]
    have htas : ∀ C, Walks m C (ta.mapM remapTy) (ta.flatMap Ty.occurrences) fun ρ => ta.map ρ.ty :=
      fun _ => Walks.mapM ta fun t _ _ => walks_remapTy t
    cases tgt with
    | decl id =>
      simp only [bind_assoc, pure_bind]
      refine Walks.congr (Walks.bind (walks_remapTy ty) fun t =>
        Walks.bind (hopt d hd _) fun d' => Walks.bind (hopt x hx _) fun x' =>
          Walks.bind (Walks.mapM as fun o ho _ => hopt o (ha o ho) _) fun as' =>
            Walks.read_bind (fun r' => ta.mapM remapTy >>= fun ta' =>
              Pure.pure (Expr.call (.decl r') d' x' ta' as' cc t)) (walks_lookup .decl id) fun r' =>
                Walks.bind (htas _) fun ta' => Walks.pure (Expr.call (.decl r') d' x' ta' as' cc t))
          ?_ ?_
      · simp [Expr.ty, Expr.headOccurrences, Expr.children, Expr.tailOccurrences,
          CallTarget.occurrences, List.filterMap_eq_flatMap_toList, List.flatMap_assoc]
      · intro ρ _
        rw [Renaming.expr_eq, Expr.mapChildren_call]
        rfl
    | _ =>
      simp only [bind_assoc, pure_bind]
      refine Walks.congr (Walks.bind (walks_remapTy ty) fun t =>
        Walks.bind (hopt d hd _) fun d' => Walks.bind (hopt x hx _) fun x' =>
          Walks.bind (Walks.mapM as fun o ho _ => hopt o (ha o ho) _) fun as' =>
            Walks.bind (htas _) fun ta' => Walks.pure (Expr.call _ d' x' ta' as' cc t)) ?_ ?_
      · simp [Expr.ty, Expr.headOccurrences, Expr.children, Expr.tailOccurrences,
          CallTarget.occurrences, List.filterMap_eq_flatMap_toList, List.flatMap_assoc]
      · intro ρ _
        rw [Renaming.expr_eq, Expr.mapChildren_call]
        rfl
termination_by sizeOf e
decreasing_by exact Expr.sizeOf_lt_of_mem_children hc

end Expr

/-! ## Copying a declaration -/

theorem arenaSize_putExprs (M₀ : Module) (i : DeclId) (x : DeclExprs) (k : Kind) :
    (M₀.putExprs i x).arenaSize k = M₀.arenaSize k := by
  cases k <;> simp [Module.arenaSize, Module.putExprs, Module.modifyDecl]

theorem decl_putExprs_of_ne (M₀ : Module) {i y : DeclId} (h : i ≠ y) (x : DeclExprs) :
    (M₀.putExprs i x).decl y = M₀.decl y := by
  simp [Module.putExprs, Module.decl_modifyDecl, h]

/-- Filling in a declaration allocated past `m` keeps a good state good. -/
theorem Good.putExprs {s : CopyState} (hs : Good m s) {new : DeclId} (hnew : m.decls.size ≤ new)
    (x : DeclExprs) : Good m { s with module := s.module.putExprs new x } where
  decl_eq y hy := by
    rw [decl_putExprs_of_ne _ (Nat.ne_of_gt (Nat.lt_of_lt_of_le hy hnew)), hs.decl_eq y hy]
  size_ge k := by
    rw [arenaSize_putExprs]
    exact hs.size_ge k
  fresh k p hp := by
    rw [arenaSize_putExprs]
    exact hs.fresh k p hp
  nodup := hs.nodup

/-- Filling in a declaration allocated after `s` is part of a step from `s`. -/
theorem Step.putExprs {s s' : CopyState} (h : Step s s') {new : DeclId}
    (hnew : s.module.decls.size ≤ new) (x : DeclExprs) :
    Step s { s' with module := s'.module.putExprs new x } where
  size_le k := by
    rw [arenaSize_putExprs]
    exact h.size_le k
  decl_eq y hy := by
    rw [decl_putExprs_of_ne _ (Nat.ne_of_gt (Nat.lt_of_lt_of_le hy hnew)), h.decl_eq y hy]

/-- A step that reads the state first walks as its continuation does from every state it may
start in. -/
theorem Walks.get_bind {C : Renaming → Prop} {α : Type} {K : CopyState → M α}
    {occ : List Occurrence} {out : Renaming → α}
    (hK : ∀ s, Good m s → Named m occ → Walks m C (K s) occ out) :
    Walks m C (get >>= K) occ out :=
  Walks.of_run_eq fun s hs hn => ⟨K s, rfl, hK s hs hn⟩

/-- Allocating the copy of `old` and recording it, walking its defaults and body, and putting
them into it binds `old`: the copy is complete when the walk ends, and the walks of the defaults
and body, which allocate past it, leave it as it was. -/
theorem walks_allocCopy {C : Renaming → Prop} (old : DeclId) (copy : Decl)
    {defaults : M (List (Option Expr))} {body : M (Option Expr)} {l₁ l₂ : List Occurrence}
    {out₁ : Renaming → List (Option Expr)} {out₂ : Renaming → Option Expr}
    (h₁ : ∀ C, Walks m C defaults l₁ out₁) (h₂ : ∀ C, Walks m C body l₂ out₂)
    (hcopy : ∀ ρ, C ρ → ρ.copy (m.decl old) =
      { copy with params := Module.putDefaults copy.params (out₁ ρ), body := out₂ ρ }) :
    Walks m C (do
        let s ← get
        let (m', new) := s.module.allocDecl copy
        set { s with module := m', decls := (old, new) :: s.decls }
        let ds ← defaults
        let b ← body
        modify fun s => { s with module := s.module.putExprs new ⟨ds, b⟩ }
        return new)
      (.binds ⟨.decl, old⟩ :: (l₁ ++ l₂)) fun ρ => ρ.apply .decl old := by
  intro s hs hn
  have hn₁₂ := named_append
    (named_append (show Named m ([.binds ⟨.decl, old⟩] ++ (l₁ ++ l₂)) from hn)).2
  -- the copy is allocated at the end of the arena and recorded for `old`
  let new := s.module.decls.size
  let s₁ : CopyState :=
    { s with module := (s.module.allocDecl copy).1, decls := (old, new) :: s.decls }
  obtain ⟨hs₁, hstep₁, hrec₁⟩ := hs.record s₁ .decl old
    (fun k => by cases k <;> simp [s₁, Module.arenaSize, Module.allocDecl])
    (fun k => by cases k <;> simp [s₁, new, recorded, Renaming.map, Module.arenaSize])
    fun y hy => by simp [s₁, Module.decl_allocDecl, Nat.ne_of_lt hy]
  have hrun : sem.run (do
        let s ← get
        let (m', new) := s.module.allocDecl copy
        set { s with module := m', decls := (old, new) :: s.decls }
        let ds ← defaults
        let b ← body
        modify fun s => { s with module := s.module.putExprs new ⟨ds, b⟩ }
        return new) s =
      sem.run (do
        let ds ← defaults
        let b ← body
        modify fun s : CopyState => { s with module := s.module.putExprs new ⟨ds, b⟩ }
        return new) s₁ := rfl
  rw [hrun]
  refine ⟨fun e he => ?_, fun a s' hx => ?_⟩
  · rcases sem.bind_error he with he | ⟨ds, s₂, hr₂, he⟩
    · exact (h₁ C s₁ hs₁ hn₁₂.1).1 e he
    rcases sem.bind_error he with he | ⟨b, s₃, hr₃, he⟩
    · exact (h₂ C s₂ ((h₁ C s₁ hs₁ hn₁₂.1).2 ds s₂ hr₂).1 hn₁₂.2).1 e he
    cases he
  obtain ⟨ds, s₂, hr₂, hx⟩ := sem.bind_ok hx
  obtain ⟨b, s₃, hr₃, hx⟩ := sem.bind_ok hx
  obtain ⟨hs₂, hstep₂, hrec₂, hres₂⟩ := (h₁ C s₁ hs₁ hn₁₂.1).2 ds s₂ hr₂
  obtain ⟨hs₃, hstep₃, hrec₃, hres₃⟩ := (h₂ C s₂ hs₂ hn₁₂.2).2 b s₃ hr₃
  cases hx
  have hnew : new < s₁.module.decls.size := by simp [s₁, new]
  -- putting the defaults and body in changes the copy and nothing else
  refine ⟨hs₃.putExprs (hs.size_ge .decl) _,
    (hstep₁.trans (hstep₂.trans hstep₃)).putExprs (Nat.le_refl _) _,
    hrec₁.append hstep₁ (hrec₂.append hstep₂ hrec₃), fun ρ hρ hadm => ?_⟩
  -- under an admitted renaming, the defaults and body are renamed
  have hadm₃ : Admits ρ s s₃ ([.binds ⟨.decl, old⟩] ++ (l₁ ++ l₂)) :=
    ⟨hadm.grows, hadm.keys_nodup, hadm.inScope⟩
  have hadm₁₃ := hadm₃.right hrec₁
  have hadm₁ := hadm₁₃.left hrec₃
  have hadm₂ := hadm₁₃.right hrec₂
  obtain ⟨hds, hcopied₁⟩ := hres₂ ρ hρ hadm₁
  obtain ⟨hb, hcopied₂⟩ := hres₃ ρ hρ hadm₂
  have hmem : (old, new) ∈ s₃.recorded.map .decl := by
    obtain ⟨pre, hpre⟩ := (hrec₃.recorded_extends.trans hrec₂.recorded_extends) .decl
    rw [hpre]
    exact List.mem_append_right _ List.mem_cons_self
  have hold : ρ.apply .decl old = new := Renaming.apply_of_mem hadm.grows hadm.keys_nodup hmem
  refine ⟨hold.symm, fun x hx => ?_⟩
  have hkeys : keysOf .decl (.binds ⟨.decl, old⟩ :: (l₁ ++ l₂)) =
      old :: (keysOf .decl l₁ ++ keysOf .decl l₂) := by
    simp [keysOf]
  rw [hkeys, List.mem_cons, List.mem_append] at hx
  rcases hx with rfl | hx | hx
  · -- the copy itself: allocated with everything but its defaults and body, then completed
    have hcopy₃ : s₃.module.decl new = copy := by
      rw [(hstep₂.trans hstep₃).decl_eq new hnew]
      simp [s₁, new, Module.decl_allocDecl]
    have hnew₃ : new < s₃.module.decls.size :=
      Nat.lt_of_lt_of_le hnew ((hstep₂.trans hstep₃).size_le .decl)
    rw [hold, hcopy ρ hρ, ← hds, ← hb]
    simp [Module.putExprs, Module.decl_modifyDecl, hnew₃, hcopy₃]
  · -- a declaration nested in a default, copied past the copy
    have hge := (hrec₂.apply_mem hadm₁.grows hadm₁.keys_nodup hx).2
    simp only [Module.arenaSize] at hge
    have hne : new ≠ ρ.apply .decl x := by omega
    rw [decl_putExprs_of_ne _ hne,
      hstep₃.decl_eq _ (hrec₂.apply_lt hs₂ hadm₁.grows hadm₁.keys_nodup hx)]
    exact hcopied₁ x hx
  · -- a declaration nested in the body, copied past the copy
    have hge := (hrec₃.apply_mem hadm₂.grows hadm₂.keys_nodup hx).2
    have hle := hstep₂.size_le .decl
    simp only [Module.arenaSize] at hge hle
    have hne : new ≠ ρ.apply .decl x := by omega
    rw [decl_putExprs_of_ne _ hne]
    exact hcopied₂ x hx

/-- Putting the renamed defaults back into the renamed receivers of parameters whose defaults
were taken out gives the renamed parameters. -/
theorem putDefaults_renamed (ρ : Renaming) (ps : List Param) :
    Module.putDefaults ((ps.map ρ.receiver).map fun p => { p with default := none })
      (ps.map fun p => p.default.map ρ.expr) = ps.map ρ.param := by
  induction ps with
  | nil => rfl
  | cons p ps ih =>
    simp only [List.map_cons, Module.putDefaults, ih]
    rfl

/-- Copying a declaration to `fuel` levels of nesting walks its occurrences and yields the
index its copy has in the final renaming. -/
theorem walks_copyDecl (fuel : Nat) :
    ∀ old C, Walks m C (copyDecl fuel old) (m.declOccurrences fuel old)
      fun ρ => ρ.apply .decl old := by
  induction fuel with
  | zero =>
    intro old C s _ _
    refine ⟨fun e he => ?_, fun a s' hx => ?_⟩
    · cases he
      rfl
    · cases hx
  | succ fuel ih =>
    intro old C
    rw [copyDecl]
    refine Walks.get_bind fun s₀ hs₀ hn₀ => ?_
    have hold : old < m.decls.size := hn₀.2 old (by simp [Module.declOccurrences, mem_keysOf])
    simp only [hs₀.decl_eq old hold]
    refine Walks.congr (Walks.bind (Walks.mapM (m.decl old).typeParams fun tp _ _ =>
        walks_copyTypeParam tp) fun tps =>
      Walks.bind (Walks.option (m.decl old).dispatch fun p _ _ => walks_copyParam p) fun dispatch =>
      Walks.bind (Walks.option (m.decl old).extension fun p _ _ => walks_copyParam p)
        fun extension =>
      Walks.bind (Walks.mapM (m.decl old).params fun p _ _ => walks_copyParam p) fun params =>
      Walks.bind (walks_remapTy (m.decl old).returns) fun returns =>
      Walks.bind (Walks.option (m.decl old).inlineArgument fun t _ _ => walks_remapTy t)
        fun inlineArgument =>
      walks_allocCopy old _
        (fun _ => Walks.mapM (m.decl old).params fun p _ _ =>
          Walks.option p.default fun e _ C => walks_copyExpr ih e C)
        (fun _ => Walks.option (m.decl old).body fun e _ C => walks_copyExpr ih e C) ?_) ?_ ?_
    · rintro ρ ⟨⟨⟨⟨⟨⟨-, rfl⟩, rfl⟩, rfl⟩, rfl⟩, rfl⟩, rfl⟩
      simp only [Renaming.copy]
      congr 1
      exact (putDefaults_renamed ρ _).symm
    · simp [Module.declOccurrences, Decl.explicitParams, Decl.receivers, Decl.owned,
        List.filterMap_eq_flatMap_toList, List.flatMap_assoc, ← List.map_eq_flatMap]
    · intro ρ _
      rfl

/-- The state a deep copy starts from keeps the module and has recorded nothing. -/
theorem good_start (m : Module) : Good m { module := m } where
  decl_eq _ _ := rfl
  size_ge _ := Nat.le_refl _
  fresh k p hp := by cases k <;> cases hp
  nodup k := by cases k <;> exact List.nodup_nil

end CopyState

end ComposeLowering
