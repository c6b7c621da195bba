import ComposeLowering.Ir.Dump

/-!
# Deep copies

A deep copy of a declaration allocates a fresh declaration for it and for every lambda and local
function nested in it, fresh values for their receivers, parameters and `let`s, and fresh type
parameters, and renames every reference inside the copied tree through those renamings:
return targets, call targets, nested functions, value reads, writes and mask words, and type
parameters inside every type. References that leave the tree are kept. The copy is detached.

Renamings are recorded as the tree is walked: a declaration before its defaults and body, type
parameters before the types that mention them, and a `let` value after its initial value.
-/

namespace ComposeLowering

/-- The state of a deep copy: the module and the three renamings, the latest entry first. -/
structure CopyState where
  module : Module
  decls : List (DeclId × DeclId) := []
  values : List (ValueId × ValueId) := []
  typeParams : List (TypeParamId × TypeParamId) := []
  deriving Inhabited

namespace CopyState

/-- A step of a deep copy. -/
abbrev M := StateT CopyState (Except Fault)

/-- A type with its type parameters renamed. -/
def remapTy (t : Ty) : M Ty := do
  let s ← get
  return t.remap fun p => s.typeParams.lookup p

/-- A value renamed, or kept when it is not in the copied tree. -/
def mapValue (v : ValueId) : M ValueId := do
  return ((← get).values.lookup v).getD v

/-- Allocates a value with a name. -/
def newValue (name : String) : M ValueId := do
  let s ← get
  let (m, v) := s.module.newValue name
  set { s with module := m }
  return v

/-- Copies a receiver or parameter: a fresh value and its types renamed. A receiver keeps its
default as it is; the defaults of parameters are copied with the body. -/
def copyParam (p : Param) : M Param := do
  let v ← newValue p.name
  modify fun s => { s with values := (p.value, v) :: s.values }
  let ty ← remapTy p.ty
  let vararg ← p.vararg.mapM remapTy
  return { p with value := v, ty, vararg }

/-- Runs a computation that may fault. -/
def liftExcept {α : Type} (x : Except Fault α) : M α := fun s => x.map (·, s)

/-- Copies an expression, renaming its references; a lambda or local function it holds is
copied by `nested`. -/
def copyExpr (nested : DeclId → M DeclId) (e : Expr) : M Expr := do
  let t ← remapTy e.ty
  match e with
  | .get v _ => return .get (← mapValue v) t
  | .set v x _ => do
    let v' ← mapValue v
    return .set v' (← copyExpr nested x) t
  | .letVal v x _ => do
    let x' ← copyExpr nested x
    let name ← liftExcept ((← get).module.valueName v)
    let fresh ← newValue name
    modify fun s => { s with values := (v, fresh) :: s.values }
    return .letVal fresh x' t
  | .maskBit v b _ => return .maskBit (← mapValue v) b t
  | .ret r x _ => do
    let r' := ((← get).decls.lookup r).getD r
    return .ret r' (← copyExpr nested x) t
  | .call tgt d x ta args cc ty => do
    match ← (Expr.call tgt d x ta args cc ty).traverseChildren (fun c _ => copyExpr nested c)
        nested with
    | .call tgt d x ta args cc _ =>
      let tgt' ← match tgt with
        | .decl id => pure (.decl (((← get).decls.lookup id).getD id))
        | other => pure other
      return .call tgt' d x (← ta.mapM remapTy) args cc t
    | other => return other.withTy t
  | other => return (← other.traverseChildren (fun c _ => copyExpr nested c) nested).withTy t
  termination_by sizeOf e
  decreasing_by
    all_goals first
      | exact Expr.sizeOf_lt_of_mem_children ‹_›
      | (simp; omega)

/-- Copies a declaration and everything nested in it, to the given depth of nesting. -/
def copyDecl : Nat → DeclId → M DeclId
  | 0, _ => throw .recursionLimit
  | fuel + 1, old => do
    let d := (← get).module.decl old
    let tps ← d.typeParams.mapM fun tp => do
      let s ← get
      let (m, id) := s.module.newTypeParam tp.name
      set { s with module := m, typeParams := (tp.id, id) :: s.typeParams }
      return { tp with id }
    let dispatch ← d.dispatch.mapM copyParam
    let extension ← d.extension.mapM copyParam
    let params ← d.params.mapM copyParam
    let returns ← remapTy d.returns
    let inlineArgument ← d.inlineArgument.mapM remapTy
    let copy := { d with typeParams := tps, dispatch, extension,
                         params := params.map fun p => { p with default := none }, returns,
                         inlineArgument, parent := .detached, body := none }
    let s ← get
    let (m, new) := s.module.allocDecl copy
    set { s with module := m, decls := (old, new) :: s.decls }
    let defaults ← d.params.mapM fun p => p.default.mapM (copyExpr (copyDecl fuel))
    let body ← d.body.mapM (copyExpr (copyDecl fuel))
    modify fun s => { s with module := s.module.putExprs new ⟨defaults, body⟩ }
    return new

end CopyState

namespace Module

/-- Copies a declaration with everything nested in it; the module after the copy and the
copy. -/
def deepCopy (m : Module) (d : DeclId) : Except Fault (Module × DeclId) := do
  let (new, s) ← (CopyState.copyDecl (m.decls.size + 1) d).run { module := m }
  return (s.module, new)

end Module

end ComposeLowering
