import ComposeLowering.Lowering.Decoy.Rules

/-!
# Calls retargeted to implementations

Every reachable declaration that is not a decoy has its overrides and the call targets in its
defaults and body replaced: a decoy becomes its implementation, anything else is kept. Each
decoy's implementation is looked up once; every replacement is counted.
-/

namespace ComposeLowering

namespace Decoy

/-- The state of retargeting: the module, the implementations found, and the count. -/
structure RetargetState where
  module : Module
  cache : List (DeclId × DeclId) := []
  substituted : Nat := 0
  deriving Inhabited

/-- A retargeting step. -/
abbrev RetargetM := ReaderT LowerContext (StateT RetargetState (Except LowerError))

/-- The implementation standing for a declaration: its decoy's implementation, or itself. -/
def implementationOf (d : DeclId) : RetargetM DeclId := do
  let s ← get
  if !(s.module.decl d).isDecoy then return d
  let impl ← match s.cache.lookup d with
    | some i => pure i
    | none => do
      let i ← liftExcept (implementationFor (← read) s.module d)
      modify fun s => { s with cache := (d, i) :: s.cache }
      pure i
  modify fun s => { s with substituted := s.substituted + 1 }
  return impl
where
  liftExcept {α : Type} (x : Except LowerError α) : RetargetM α :=
    match x with
    | .ok a => pure a
    | .error e => throw e

/-- Retargets the calls of an expression, children first. -/
def retargetExpr (e : Expr) : RetargetM Expr := do
  let e' ← e.traverseChildren
    (fun c h => have := Expr.sizeOf_lt_of_mem_children h; retargetExpr c) pure
  match e' with
  | .call (.decl t) d x ta args cc ty => return .call (.decl (← implementationOf t)) d x ta args cc ty
  | other => return other
  termination_by sizeOf e

/-- Retargets the overrides, defaults and body of one declaration. -/
def retargetDecl (d : DeclId) : RetargetM Unit := do
  let overrides ← ((← get).module.decl d).overrides.mapM implementationOf
  modify fun s => { s with module := s.module.modifyDecl d fun x => { x with overrides } }
  let (m, exprs) := (← get).module.takeExprs d
  modify fun s => { s with module := m }
  let defaults ← exprs.defaults.mapM fun e => e.mapM retargetExpr
  let body ← exprs.body.mapM retargetExpr
  modify fun s => { s with module := s.module.putExprs d ⟨defaults, body⟩ }

/-- Retargets every reachable declaration that is not a decoy. Returns the module and the
number of replacements. -/
def retargetModule (ctx : LowerContext) (m : Module) : Except LowerError (Module × Nat) := do
  let run : RetargetM Unit := m.reachableDecls.forM fun d => do
    if !((← get).module.decl d).isDecoy then retargetDecl d
  let ((), s) ← (run.run ctx).run { module := m }
  return (s.module, s.substituted)

end Decoy

end ComposeLowering
