import ComposeLowering.Ir.Dump
import ComposeLowering.Ir.Zero
import ComposeLowering.Lowering.Synthetic
import ComposeLowering.Lowering.Error
import ComposeLowering.Lowering.Names
import ComposeLowering.Options

/-!
# Composer parameters

Every composable declaration is replaced by a *lowered* clone whose parameter list ends with
the synthetic parameters: the composer, the change words and, when the declaration or one it
overrides declares a default value (constructors never count), the default masks. A parameter
with a default becomes assignable and, unless its type is a value type or an inline class,
nullable; a prologue assigns each default when its mask bit is set. An accessor clone gets a
link name derived from its property.

Every call from a lowered body to a lowered declaration, and every `invoke` of a composable
function value, is given matching arguments: the arguments given with each omitted one
replaced by a placeholder for its default, the enclosing composer, zero change words, and the
default masks whose bit `i` marks argument `i` as omitted. A call whose slots do not add up to
the callee's parameters is an error.

Declarations that are not composable, `expect` declarations, non-composable inlined lambdas and
declarations that already have a composer parameter are kept. A clone is registered before its
overrides and body are lowered, so that a recursive call finds it; each declaration is cloned
at most once per transformer.
-/

namespace ComposeLowering

/-- The memo and counters of a transformer over a module. -/
structure ComposerState where
  module : Module
  /-- The clone made for each declaration, the latest entry first. -/
  clones : List (DeclId × DeclId) := []
  /-- The declarations in lowered form: clones, and declarations found already lowered. -/
  lowered : List DeclId := []
  declarations : Nat := 0
  calls : Nat := 0
  deriving Inhabited

namespace Composer

/-- A step of the transformer. -/
abbrev M := ReaderT LowerOptions (StateT ComposerState (Except LowerError))

/-- The module. -/
def getModule : M Module := return (← get).module

/-- Changes the module. -/
def modifyModule (f : Module → Module) : M Unit := modify fun s => { s with module := f s.module }

/-- Runs a computation that may fault. -/
def liftFault {α : Type} (x : Except Fault α) : M α :=
  match x with
  | .ok a => pure a
  | .error f => throw (.fault f)

/-- Allocates a value. -/
def newValue (name : String) : M ValueId := do
  let s ← get
  let (m, v) := s.module.newValue name
  set { s with module := m }
  return v

/-- Whether a declaration is a lambda passed inline whose parameter type is not composable. -/
def isNonComposableInlinedLambda (m : Module) (d : DeclId) : Bool :=
  let x := m.decl d
  x.isLambda && match x.inlineArgument with
    | some t => !t.composable
    | none => false

/-- Whether a declaration needs default masks: it is no constructor and it or a declaration it
overrides, followed to the given depth, declares a default value. -/
def requiresDefaultMask (m : Module) : Nat → DeclId → Bool
  | 0, _ => false
  | fuel + 1, d =>
    let x := m.decl d
    x.kind != .constructor && (x.hasDefaultValues || x.overrides.any (requiresDefaultMask m fuel))

/-- The type of a parameter with a default: nullable unless a value type or an inline class. -/
def defaultParameterType (t : Ty) : Ty :=
  if t.isPrimitive || t.isInlineClass then t else t.withNullable

/-- The placeholder for an omitted argument: the zero value of the parameter's type in a
default composite, or nothing for a vararg parameter. -/
def defaultArgumentFor (p : Param) : Option Expr :=
  if p.vararg.isSome then none
  else some (.composite .defaultValue [p.ty.zeroValue] p.ty)

/-- For each real parameter with a default, in order, the statement assigning the default when
the parameter's bit is set in its mask word. -/
def prologueStmts (d : Decl) (defaults : List (Option Expr)) (words : List ValueId) : List Expr :=
  ((d.realParams.zip defaults).zipIdx).filterMap fun ((p, dflt), i) =>
    dflt.map fun x =>
      .ite (.maskBit (words.getD (i / Synthetic.bitsPerWord) 0) (i % Synthetic.bitsPerWord) Ty.boolean)
        (.set p.value x Ty.unit) none Ty.unit

/-- Statements assigning each real parameter's default when its mask bit is set, put before
the body's statements. -/
def defaultPrologue (d : Decl) (defaults : List (Option Expr)) (words : List ValueId) (body : Expr) :
    Expr :=
  let stmts := prologueStmts d defaults words
  match body with
  | .block inner t => .block (stmts ++ inner) t
  | other => .block (stmts ++ [other]) other.ty

/-- The error for a call that needs `needed` slots where the callee has `available`. -/
def slotMismatch (c : Call) (needed available : Nat) : M LowerError := do
  let text ← liftFault ((← getModule).dumpExpr (.ofCall c Ty.unit))
  return .slotCountMismatch text needed available

/-- Appends `count` zero change words, failing when a word would exceed `owner` slots. -/
def pushChangeWords (c : Call) (owner : Nat) : Nat → List (Option Expr) → M (List (Option Expr))
  | 0, args => pure args
  | k + 1, args => do
    if args.length ≥ owner then throw (← slotMismatch c (args.length + 1) owner)
    pushChangeWords c owner k (args ++ [some (Expr.intLit 0)])

/-- Appends the default masks of words `w, w+1, …` for the omitted-argument flags; a word
without room is skipped when no argument is omitted, and an error otherwise. -/
def pushDefaultMasks (c : Call) (owner : Nat) (missing : List Bool) (w : Nat) :
    Nat → List (Option Expr) → M (List (Option Expr))
  | 0, args => pure args
  | k + 1, args => do
    if args.length < owner then
      let start := w * Synthetic.bitsPerWord
      let word := (missing.drop start).take Synthetic.bitsPerWord
      let mask ← liftFault (Synthetic.bitMask word)
      pushDefaultMasks c owner missing (w + 1) k (args ++ [some (Expr.intLit mask)])
    else if missing.any id then throw (← slotMismatch c (args.length + 1) owner)
    else pushDefaultMasks c owner missing (w + 1) k args

/-- How a value renaming reads a value: renamed or kept. -/
def rename (values : List (ValueId × ValueId)) (v : ValueId) : ValueId := (values.lookup v).getD v

/-- What the body of a clone is lowered with: the declaration it replaces, the clone, the
renaming of the replaced declaration's values, the clone's composer, and whether the walk is
inside a nested function whose calls are left alone. -/
structure BodyFrame where
  old : DeclId
  new : DeclId
  values : List (ValueId × ValueId)
  composer : ValueId
  nested : Bool

/-- Gives a receiver of a clone a fresh value. -/
def renameReceiver (values : List (ValueId × ValueId)) :
    Option Param → M (Option Param × List (ValueId × ValueId))
  | none => pure (none, values)
  | some r => do
    let v ← newValue r.name
    return (some { r with value := v }, (r.value, v) :: values)

/-- Gives the parameters of a clone fresh values and safe names, makes defaulted ones
assignable and widens their types, and takes out their defaults. -/
def renameParams : List Param → List (ValueId × ValueId) →
    M (List Param × List (Option Expr) × List (ValueId × ValueId))
  | [], values => pure ([], [], values)
  | p :: ps, values => do
    let name := Names.dexSafe p.name
    let v ← newValue name
    let p' := { p with value := v, name, assignable := p.default.isSome, default := none,
                       ty := if p.default.isSome then defaultParameterType p.ty else p.ty }
    let (rest, defaults, values') ← renameParams ps ((p.value, v) :: values)
    return (p' :: rest, p.default :: defaults, values')

/-- Allocates the synthetic parameters of a clone. -/
def syntheticParams : List SyntheticParam → M (List Param)
  | [] => pure []
  | sp :: rest => do
    let v ← newValue sp.name
    let ty := match sp with
      | .composer => Ty.composer.withNullable
      | _ => Ty.int
    let p : Param := { value := v, name := sp.name, ty, origin := sp.origin,
                       assignable := sp == .composer }
    return p :: (← syntheticParams rest)

/-- The link name annotation an accessor clone gets when it has none. -/
def linkNameFor (d : Decl) : List Annotation :=
  if d.linkName?.isSome then []
  else match d.kind with
    | .getter p => [.linkName (Names.getterLinkName p)]
    | .setter p => [.linkName (Names.setterLinkName p)]
    | _ => []

/-- A clone just allocated: the declaration it replaces, its place in the arena, the renaming
of the replaced declaration's values, its composer, the defaults taken out of its parameters
(none for the synthetic ones), and the values of its default masks. -/
structure FreshClone where
  source : Decl
  new : DeclId
  values : List (ValueId × ValueId)
  composer : ValueId
  defaults : List (Option Expr)
  words : List ValueId

/-- Allocates the clone of a declaration, with its receivers and parameters renamed, its
synthetic parameters appended, and no overrides, defaults or body, and registers it as the
lowered form of the declaration. A declaration that already has synthetic parameters is an
error. -/
def allocClone (old : DeclId) : M FreshClone := do
  let m ← getModule
  let d := m.decl old
  if d.explicitParams.any fun p => p.origin.isSynthetic || p.name == SyntheticParam.composerName then
    throw (.alreadyLowered (← liftFault (m.dumpSignature old)))
  let requiresDefault := requiresDefaultMask m (m.decls.size + 1) old
  let (dispatch, values) ← renameReceiver [] d.dispatch
  let (extension, values) ← renameReceiver values d.extension
  let (params, defaults, values) ← renameParams d.params values
  let synthetic ← syntheticParams (Synthetic.params params.length d.receiverSlots requiresDefault)
  let composer := ((synthetic.find? (·.origin == .composer)).map (·.value)).getD 0
  let words := (synthetic.filter (·.origin == .defaultMask)).map (·.value)
  let clone := { d with dispatch, extension, params := params ++ synthetic, overrides := [],
                        body := none, annotations := d.annotations ++ linkNameFor d }
  let s ← get
  let (m', new) := s.module.allocDecl clone
  set { s with module := m', lowered := new :: s.lowered,
               clones := (old, new) :: s.clones, declarations := s.declarations + 1 }
  return { source := d, new, values, composer,
           defaults := defaults ++ synthetic.map fun _ => none, words }

/-- What a call is rewritten to: for an `invoke` of a composable function value, its slots;
for a call of a composable declaration whose lowered form `lower` finds, that form with its
parameter count and receivers, and default masks. Other calls are not rewritten. -/
def targetShape (lower : DeclId → M DeclId) (c : Call) :
    M (Option (CallTarget × Nat × Nat × Bool)) :=
  match c.target with
  | .invoke arity =>
    let composableValue := match c.dispatch with
      | some r => r.ty.composable
      | none => false
    if composableValue then do
      let slots ← liftFault (Synthetic.checkedInvokeSlots arity)
      pure (some (.invoke slots, slots, 0, false))
    else pure none
  | .decl t => do
    if !((← getModule).decl t).isMarkedComposable then pure none
    else
      let owner ← lower t
      let s ← get
      if !s.lowered.contains owner then pure none
      else
        let o := s.module.decl owner
        pure (some (.decl owner, o.params.length, o.receiverSlots, true))
  | .decoy => pure none

/-- The arguments given, each omitted one replaced by the placeholder for the default of the
target's parameter in its slot. -/
def filledArgs (m : Module) (target : CallTarget) (args : List (Option Expr)) :
    List (Option Expr) :=
  args.zipIdx.map fun (a, i) => match a with
    | some x => some x
    | none => match target with
      | .decl o => ((m.decl o).params[i]?).bind defaultArgumentFor
      | _ => none

/-- Gives a call the arguments of a target of `owner` slots and `receivers` receivers: the
filled arguments, the composer, zero change words and, with `hasDefaults`, the default masks of
the omitted arguments. A count that does not add up to `owner` is an error. -/
def rewriteCall (composer : ValueId) (c : Call) (target : CallTarget) (owner receivers : Nat)
    (hasDefaults : Bool) : M Call := do
  if owner > Synthetic.maxCallSlots then throw (.fault .capacityOverflow)
  let real := c.args.length
  let m ← getModule
  let missing := c.args.map Option.isNone
  let args := filledArgs m target c.args ++ [some (.get composer Ty.composer.withNullable)]
  let args ← pushChangeWords c owner (Synthetic.changedWordCount real receivers) args
  -- no default masks are the same as none pushed
  let args ← pushDefaultMasks c owner missing 0
    (if hasDefaults then Synthetic.defaultWordCount real else 0) args
  if args.length ≠ owner then throw (← slotMismatch c args.length owner)
  modify fun s => { s with calls := s.calls + 1 }
  return { c with target, args, composable := true }

/-- Takes out the defaults and the body of a declaration, maps `f` over them, and puts the
results back. -/
def mapExprs (f : Expr → M Expr) (d : DeclId) : M Unit := do
  let (m', exprs) := (← getModule).takeExprs d
  modifyModule fun _ => m'
  let defaults ← exprs.defaults.mapM fun e => e.mapM f
  let body ← exprs.body.mapM f
  modifyModule fun m => m.putExprs d ⟨defaults, body⟩

/-- Lowers an expression of a clone's defaults or body, children first: values renamed, returns
to the replaced declaration retargeted, and calls given their composer arguments by `onCall`
unless the walk is inside a nested function. Each nested function is lowered by `onNested`. -/
def rewriteExpr (onCall : Call → M Call) (onNested : DeclId → M DeclId) (fr : BodyFrame)
    (e : Expr) : M Expr := do
  let e' ← e.traverseChildren (fun c _ => rewriteExpr onCall onNested fr c) onNested
  match e' with
  | .get v t => return .get (rename fr.values v) t
  | .set v x t => return .set (rename fr.values v) x t
  | .ret r x t => return .ret (if r = fr.old then fr.new else r) x t
  | .call tgt d x ta args cc t =>
    if fr.nested then return e'
    else return .ofCall (← onCall ⟨tgt, d, x, ta, args, cc⟩) t
  | other => return other
  termination_by sizeOf e
  decreasing_by exact Expr.sizeOf_lt_of_mem_children (by assumption)

/-! The walks below call one another with one unit of fuel less at every step from one
declaration to another: to a declaration it lowers, to the clone it makes, to a nested function
whose expressions it lowers. Walking through the nodes of one expression takes no fuel. -/

mutual

/-- The declaration that stands for `d` once lowered, cloning it if needed. -/
def lowerDecl (fuel : Nat) (d : DeclId) : M DeclId := do
  let s ← get
  let x := s.module.decl d
  if s.lowered.contains d then return d
  if !x.isMarkedComposable then return d
  if isNonComposableInlinedLambda s.module d then return d
  if x.isExpect then return d
  if let some done := s.clones.lookup d then return done
  if x.params.any (·.origin == .composer) then
    set { s with lowered := d :: s.lowered }
    return d
  match fuel with
  | 0 => throw (.fault .recursionLimit)
  | fuel + 1 => cloneWithComposer fuel d

/-- Clones a declaration with synthetic parameters, registers the clone, and lowers its
overrides, defaults and body. -/
def cloneWithComposer : Nat → DeclId → M DeclId
  | 0, _ => throw (.fault .recursionLimit)
  | fuel + 1, old => do
    let cl ← allocClone old
    let overrides ← cl.source.overrides.mapM (lowerDecl fuel)
    modifyModule fun m => m.modifyDecl cl.new fun x => { x with overrides }
    let frame : BodyFrame := { old, new := cl.new, values := cl.values, composer := cl.composer,
                               nested := false }
    let walk := rewriteExpr (lowerCall fuel cl.composer) (bodyNested fuel frame) frame
    let defaults' ← cl.defaults.mapM fun (e : Option Expr) => e.mapM walk
    let body ← cl.source.body.mapM walk
    let opts ← read
    let m ← getModule
    let body' := body.map fun b =>
      if opts.defaultPrologue && !cl.words.isEmpty then
        defaultPrologue (m.decl cl.new) defaults' cl.words b
      else b
    modifyModule fun m => m.putExprs cl.new ⟨defaults', body'⟩
    return cl.new

/-- Gives a call to a lowered declaration, or an `invoke` of a composable function value,
its composer arguments. Other calls, and calls already given them, are kept. -/
def lowerCall : Nat → ValueId → Call → M Call
  | 0, _, _ => throw (.fault .recursionLimit)
  | fuel + 1, composer, c => do
    if c.composable then return c
    match ← targetShape (lowerDecl fuel) c with
    | none => return c
    | some (target, owner, receivers, hasDefaults) =>
      rewriteCall composer c target owner receivers hasDefaults

/-- Lowers the defaults and body of a nested function in place. Its calls are left alone,
unless it is a non-composable inlined lambda, which runs in the enclosing composer's frame. -/
def bodyNested : Nat → BodyFrame → DeclId → M DeclId
  | 0, _, _ => throw (.fault .recursionLimit)
  | fuel + 1, fr, d => do
    let m ← getModule
    let fr' := { fr with nested := if isNonComposableInlinedLambda m d then fr.nested else true }
    mapExprs (rewriteExpr (lowerCall fuel fr'.composer) (bodyNested fuel fr') fr') d
    return d

end

/-- Lowers a declaration, then visits the functions nested in its defaults and body, to the
given depth of nesting. -/
def visitDecl : Nat → DeclId → M DeclId
  | 0, _ => throw (.fault .recursionLimit)
  | fuel + 1, d => do
    let d' ← lowerDecl fuel d
    mapExprs (Expr.mapNestedM (visitDecl fuel)) d'
    return d'

/-- The fuel of one run over a module of `n` declarations. A chain of clones in progress holds
at most one clone of each of them, and between two clones of the chain a walk enters at most
`n` nested functions, so `(n + 2) * (n + 3)` steps from one declaration to another never run
out. -/
def fuelFor (m : Module) : Nat := (m.decls.size + 2) * (m.decls.size + 3)

/-- Visits every member of every container, puts lowered members in place of the members they replace,
and recomputes the parents. -/
def lowerModule : M Unit := do
  let m ← getModule
  let fuel := fuelFor m
  for c in m.containersInOrder do
    for member in ((← getModule).container c).members do
      let new ← visitDecl fuel member
      if new ≠ member then modifyModule fun m => m.replaceMember c member new
  modifyModule Module.patchParents

end Composer

end ComposeLowering
