import ComposeLowering.Lowering.Pipeline
import ComposeLowering.Proofs.Composer.Pass
import ComposeLowering.Proofs.Unlowered

/-!
# The composer pass over a whole module

`lowerModule` visits every member of every container: it lowers the member, cloning it when it
must take a composer, then visits the functions nested in its defaults and body the same way;
it puts each lowered member in the place of the one it replaces, and recomputes the parents at
the end. Each of these steps keeps `Composer.Inv`, so a run that starts from a module in which
nothing is lowered yet ends in a state that satisfies it.

## Unlowered modules

A fresh transformer has lowered nothing and cloned nothing, so the invariant asks of its
module exactly what `Module.Unlowered` says: no parameter is a composer, and no call is marked
as lowered.
-/

namespace ComposeLowering

namespace Composer

variable {A : Prop}

/-- An unmarked node of an unlowered module fits at the start; when arities are tracked, a call
of a declaration needs one in the arena with one slot per parameter. -/
theorem nodeFits_start {m : Module} {e : Expr} (hu : e.Unmarked)
    (harity : A → ∀ c, e.call? = some c → ∀ t, c.target = .decl t →
      t < m.decls.size ∧ c.args.length = (m.decl t).params.length) :
    NodeFits A { module := m } e := by
  cases e with
  | call tgt d x ta args cc t =>
    have hcc : cc = false := hu _ rfl
    subst hcc
    intro hA
    cases tgt with
    | decl t' =>
      obtain ⟨hlt, hlen⟩ := harity hA _ rfl t' rfl
      exact ⟨hlt, by simpa using hlen⟩
    | invoke k => trivial
    | decoy => trivial
  | _ => exact nodeFits_of_callShape_none rfl

/-- A fresh transformer over an unlowered module starts in the invariant; when arities are
tracked, every call of a declaration must go to one of the arena with one slot per parameter. -/
theorem inv_start {m : Module} (h : m.Unlowered) (harity : A → m.ArityFits) :
    Inv A { module := m } where
  lowered_form _ hd := nomatch hd
  no_composer d _ := (h d).no_composer
  clone_form _ hp := nomatch hp
  calls_fit d e he x hx := nodeFits_start ((h d).unmarked e he x hx)
    fun hA => harity hA d x (List.mem_flatMap.2 ⟨e, he, hx⟩)
  masks_defaults _ hd := nomatch hd

/-- Replacing the functions nested in an expression by a walk that keeps the invariant keeps
the expression fitting: every node keeps its call shape. -/
theorem keeps_mapNestedM {g : DeclId → M DeclId}
    (hg : ∀ d, Keeps (Inv A) (fun _ => True) (g d) fun _ _ => True) (e : Expr) :
    Keeps (Inv A) (fun s => e.All (NodeFits A s)) (e.mapNestedM g)
      fun e' s => e'.All (NodeFits A s) := by
  rw [Expr.mapNestedM]
  have hchildren := Keeps.mapChildrenM (f := Expr.mapNestedM g) (g := g) e stable_all_nodeFits
    (persists_all_nodeFits e)
    (fun c hc => (keeps_mapNestedM hg c).mono (fun _ hs => hs.child hc) fun _ _ h => h)
    fun d => (hg d).mono (fun _ _ => trivial) fun _ _ h => h
  exact (hchildren.keep (persists_all_nodeFits e)).mono (fun _ h => h)
    fun _ _ ⟨⟨hshape, hc⟩, he⟩ => all_of_rebuilt hshape hc he
termination_by sizeOf e
decreasing_by exact Expr.sizeOf_lt_of_mem_children hc

/-- Visiting a declaration, and the functions nested in it, keeps the invariant at every
fuel. -/
theorem keeps_visitDecl : ∀ fuel d,
    Keeps (Inv A) (fun _ => True) (visitDecl fuel d) fun _ _ => True
  | 0, _ => by rw [visitDecl]; exact Keeps.throw _
  | fuel + 1, d => by
    rw [visitDecl]
    refine Keeps.bind (((walks A fuel).lowerDecl d).mono (fun _ h => h) fun _ _ _ => trivial)
      fun d' => ?_
    exact Keeps.bind (keeps_mapExprs (keeps_mapNestedM (keeps_visitDecl fuel)) d') fun _ =>
      Keeps.pure _ fun _ _ => trivial

theorem keeps_reparent {g : Module → Module} (hg : ∀ m : Module, m.Reparented (g m)) :
    Keeps (Inv A) (fun _ => True) (modifyModule g) fun _ _ => True := by
  intro opts s u s' h hI _
  obtain ⟨hI', hg'⟩ := modifyModule_ok h ▸ inv_reparented hI (hg s.module)
  exact ⟨hI', hg', trivial⟩

/-- Lowering a whole module keeps the invariant. -/
theorem keeps_lowerModule : Keeps (Inv A) (fun _ => True) lowerModule fun _ _ => True := by
  unfold lowerModule
  refine Keeps.bind Keeps.getModule fun m => ?_
  refine Keeps.bind (Keeps.forIn _ _ fun c _ _ => ?_) fun _ =>
    keeps_reparent fun _ => Module.reparented_patchParents
  refine Keeps.bind Keeps.getModule fun m' => ?_
  refine Keeps.bind (Keeps.forIn _ _ fun member _ _ => ?_) fun _ => Keeps.pure _ fun _ h => h
  refine Keeps.bind (keeps_visitDecl _ member) fun new => ?_
  refine Keeps.ite _ ?_ (Keeps.pure _ fun _ h => h)
  exact Keeps.bind (keeps_reparent fun _ => Module.reparented_replaceMember c member new)
    fun _ => Keeps.pure _ fun _ h => h

/-- A successful run of the composer pass over an unlowered module ends in the invariant, with
arities tracked when the module's calls fit their callees. -/
theorem inv_run {opts : LowerOptions} {m : Module} {s : ComposerState} (hm : m.Unlowered)
    (harity : A → m.ArityFits) (h : run opts m = .ok s) : Inv A s := by
  unfold run at h
  cases hrun : lowerModule opts { module := m } with
  | error e =>
    rw [ReaderT.run, StateT.run, hrun] at h
    cases h
  | ok r =>
    rw [ReaderT.run, StateT.run, hrun] at h
    cases h
    exact (keeps_lowerModule opts _ _ _ hrun (inv_start hm harity) trivial).1

end Composer

end ComposeLowering
