import ComposeLowering.Fuzz.Entropy
import ComposeLowering.Ir.Module
import ComposeLowering.Decimal.Literal

/-!
# Random modules

The generator turns entropy into a well-formed module for exercising lowering. Every call it
makes passes one argument slot per parameter of the callee, leaves out only arguments whose
parameter has a default, and every return targets an enclosing declaration.

It builds one to `maxFiles` files, each with a numbered package or none, one to
`maxFunctions` top-level functions, and up to `maxClasses` classes. A class may have a
constructor taking composable content, a composable getter, an override of a method of an
earlier class with the same shape, and up to `maxFunctions` methods. A function is composable
or not, sometimes private or an extension of `String`, with up to `maxParams` parameters of the
types `Int`, `Boolean`, `String`, `String?`, `@Composable () -> Unit` and the inline class `Dp`
over `Float`, a third of them with a default value. A body holds up to `maxStatements`
statements: calls to functions made so far (a function can call itself), lambdas that are
deferred, inlined or composable, invocations of composable lambdas, and local functions, nested
up to `maxNesting` deep; a quarter of the bodies end with a return.

Names are numbered by one counter in the order they are made. The choices are read from the
entropy in a fixed order, each with the integer width the generator declares for it.
-/

namespace ComposeLowering

namespace Fuzz

/-- Bounds on the size of a generated module. -/
structure Limits where
  maxFiles : Nat := 2
  maxClasses : Nat := 2
  maxFunctions : Nat := 4
  maxParams : Nat := 4
  maxStatements : Nat := 4
  maxNesting : Nat := 2
  deriving Inhabited

/-- A parameter as callers see it. -/
structure ParamShape where
  ty : Ty
  hasDefault : Bool
  deriving Inhabited

/-- A declaration that generated code can call, with the shape a call needs. -/
structure Callee where
  decl : DeclId
  name : String
  composable : Bool
  params : List ParamShape
  returns : Ty
  dispatch : Option Ty
  extension : Bool
  deriving Inhabited

/-- How a lambda is used: stored and called later, passed to an inline function (sharing the
enclosing composer and able to return from the enclosing function), or composable. -/
inductive LambdaKind where
  | deferred
  | inlined
  | composable
  deriving DecidableEq, Inhabited

/-! ## Types and widths -/

/-- `@Composable () -> Unit`. -/
def contentTy : Ty := (Ty.function [] Ty.unit).withComposable

/-- `() -> Unit`. -/
def actionTy : Ty := Ty.function [] Ty.unit

/-- `String?`. -/
def nullableString : Ty := Ty.string.withNullable

/-- `Float`. -/
def floatTy : Ty := Ty.ofBase .float

/-- The inline class `Dp` over `Float`. -/
def dpTy : Ty := Ty.inlineClass "Dp" floatTy

/-- The width of a count or index. -/
def countWidth : Nat := 8

/-- The width of a small choice. -/
def choiceWidth : Nat := 1

/-- The width of a chance and of an integer constant. -/
def chanceWidth : Nat := 4

/-! ## The generation state -/

/-- The entropy left, the module so far, the callees and the methods of earlier classes, and
the name counter. -/
structure GenState where
  input : Entropy
  module : Module
  callees : Array Callee := #[]
  classMethods : Array Callee := #[]
  counter : Nat := 0
  deriving Inhabited

/-- A generation step. -/
abbrev GenM := ReaderT Limits (StateT GenState (Except Fault))

namespace GenM

/-- Draws an integer from `lo..=hi`. -/
def draw (lo hi width : Nat) : GenM Nat := do
  let s ← get
  match s.input.draw lo hi width with
  | .ok (x, e) => set { s with input := e }; return x
  | .error f => throw f

/-- Decides with chance `n / d`. -/
def chance (n d : Nat) : GenM Bool := do
  let s ← get
  match s.input.chance n d chanceWidth with
  | .ok (b, e) => set { s with input := e }; return b
  | .error f => throw f

/-- Tosses a coin. -/
def coin : GenM Bool := do
  let s ← get
  let (b, e) := s.input.coin
  set { s with input := e }
  return b

/-- A name made of a prefix and the next count. -/
def fresh (pre : String) : GenM String := do
  let s ← get
  set { s with counter := s.counter + 1 }
  return pre ++ toString (s.counter + 1)

/-- Changes the module. -/
def modifyModule (f : Module → Module) : GenM Unit :=
  modify fun s => { s with module := f s.module }

/-- Runs a module operation that returns an index. -/
def alloc {α : Type} (f : Module → Module × α) : GenM α := do
  let s ← get
  let (m, x) := f s.module
  set { s with module := m }
  return x

/-- Changes a declaration. -/
def modifyDecl (d : DeclId) (f : Decl → Decl) : GenM Unit := modifyModule (·.modifyDecl d f)

/-- Allocates a declaration as the last member of a container. -/
def member (c : ContainerId) (d : Decl) : GenM DeclId := do
  let id ← alloc (·.allocDecl d)
  modifyModule (·.addMember c id)
  return id

/-- Allocates a declaration nested in `outer`, local to it. -/
def nested (outer : DeclId) (name : String) (origin : DeclOrigin) : GenM DeclId :=
  alloc (·.allocDecl { name, kind := .function, origin, visibility := .«local»,
                       parent := .decl outer })

/-- Appends a parameter with an optional default, allocating its value. -/
def param (d : DeclId) (name : String) (ty : Ty) (default : Option Expr) : GenM Unit := do
  let value ← alloc (·.newValue name)
  modifyDecl d fun x => { x with params := x.params ++ [{ value, name, ty, default }] }

/-- Gives a declaration a dispatch receiver. -/
def dispatch (d : DeclId) (ty : Ty) : GenM Unit := do
  let value ← alloc (·.newValue "<this>")
  modifyDecl d fun x => { x with dispatch := some { value, name := "<this>", ty, origin := .receiver } }

/-- Gives a declaration an extension receiver. -/
def extension (d : DeclId) (ty : Ty) : GenM Unit := do
  let value ← alloc (·.newValue "<this>")
  modifyDecl d fun x => { x with extension := some { value, name := "<this>", ty, origin := .receiver } }

/-- Marks a declaration composable. -/
def markComposable (d : DeclId) : GenM Unit :=
  modifyDecl d fun x => { x with annotations := x.annotations ++ [.composable] }

/-- Sets a declaration's body. -/
def setBody (d : DeclId) (body : Expr) : GenM Unit := modifyDecl d fun x => { x with body := some body }

/-- Repeats an action `n` times, collecting the results. -/
def times {α : Type} (n : Nat) (act : Nat → GenM α) : GenM (List α) := (List.range n).mapM act

end GenM

open GenM

/-- A composable lambda with an empty body, nested in `outer`. -/
def emptyLambda (outer : DeclId) (ty : Ty) : GenM Expr := do
  let id ← nested outer "<anonymous>" .lambda
  markComposable id
  setBody id Expr.unit
  return .fn id ty

/-- A parameter type. -/
def paramTy : GenM Ty := do
  return match ← draw 0 5 choiceWidth with
    | 0 => Ty.int
    | 1 => Ty.boolean
    | 2 => Ty.string
    | 3 => nullableString
    | 4 => contentTy
    | _ => dpTy

/-- The single-precision bit pattern of a small natural number. -/
def floatBits (n : Nat) : UInt32 := (Decimal.BinaryFormat.ofDecimal .binary32 false n 0).toUInt32

/-! ## Values, bodies and nested functions -/

mutual

/-- A value of a type for the declaration `own`; function-typed values are lambdas, composable
ones with bodies while `depth` allows. -/
def genValue : Nat → DeclId → Ty → Nat → GenM Expr
  | 0, _, _, _ => throw .recursionLimit
  | fuel + 1, own, ty, depth => do
    if ty = contentTy then
      if depth < (← read).maxNesting then genLambda fuel own .composable own depth
      else emptyLambda own ty
    else if ty = dpTy then
      let v ← draw 0 16 choiceWidth
      return .inlineNew (.const (.float (floatBits v)) floatTy) ty
    else
      let null ← if ty = nullableString then coin else pure false
      if null then return .const .null ty
      if ty = Ty.int then return Expr.intLit (← draw 0 100 chanceWidth).toInt32
      if ty = Ty.boolean then return .const (.bool (← coin)) Ty.boolean
      return .const (.string (← fresh "s")) ty

/-- A block of statements for the declaration `own`; a closing return targets `outer`. -/
def genBody : Nat → DeclId → DeclId → Nat → GenM Expr
  | 0, _, _, _ => throw .recursionLimit
  | fuel + 1, own, outer, depth => do
    let limits ← read
    let nest := decide (depth < limits.maxNesting)
    let n ← draw 0 limits.maxStatements countWidth
    -- room is made for the statements and a closing return
    if n + 1 ≥ Nat.pow 2 64 then throw .addOverflow
    if n + 1 > Expr.maxListLength then throw .capacityOverflow
    let stmts ← times n fun _ => do
      let choice ← draw 0 7 choiceWidth
      let canCall := !(← get).callees.isEmpty
      if choice ≤ 2 && canCall then genCall fuel own depth
      else if choice = 3 && nest then genLambda fuel own .deferred outer depth
      else if choice = 4 && nest then genLambda fuel own .inlined outer depth
      else if choice = 5 && nest then genLambda fuel own .composable outer depth
      else if choice = 6 && nest then do
        let lambda ← genLambda fuel own .composable outer depth
        return .call (.invoke 0) (some lambda) none [] [] false Ty.unit
      else if choice = 7 && nest then genLocalFunction fuel own depth
      else pure Expr.unit
    let closing ← chance 1 4
    return .block (if closing then stmts ++ [.ret outer Expr.unit Ty.nothing] else stmts) Ty.unit

/-- A call to one of the callees, with a value or an omission for each parameter. -/
def genCall : Nat → DeclId → Nat → GenM Expr
  | 0, _, _ => throw .recursionLimit
  | fuel + 1, own, depth => do
    let callees := (← get).callees
    let index ← draw 0 (callees.size - 1) countWidth
    let callee := callees[index]?.getD default
    let args ← callee.params.mapM fun p => do
      let skip ← if p.hasDefault then coin else pure false
      if skip then pure none else some <$> genValue fuel own p.ty (depth + 1)
    let dispatch := callee.dispatch.map fun r => Expr.const .null r
    let extension ← if callee.extension then do
        pure (some (Expr.const (.string (← fresh "ext")) Ty.string))
      else pure none
    return .call (.decl callee.decl) dispatch extension [] args false callee.returns

/-- A lambda of a kind nested in `own`; an inlined lambda's returns target `outer`. -/
def genLambda : Nat → DeclId → LambdaKind → DeclId → Nat → GenM Expr
  | 0, _, _, _, _ => throw .recursionLimit
  | fuel + 1, own, kind, outer, depth => do
    let ty := if kind = .composable then contentTy else actionTy
    let id ← nested own "<anonymous>" .lambda
    match kind with
    | .composable => markComposable id
    | .inlined => modifyDecl id fun x => { x with inlineArgument := some actionTy }
    | .deferred => pure ()
    let body ← genBody fuel id (if kind = .inlined then outer else id) (depth + 1)
    setBody id body
    return .fn id ty

/-- A local function nested in `own`, composable or not. -/
def genLocalFunction : Nat → DeclId → Nat → GenM Expr
  | 0, _, _ => throw .recursionLimit
  | fuel + 1, own, depth => do
    let name ← fresh "local"
    let composable ← coin
    let id ← nested own name .defined
    if composable then markComposable id
    let body ← genBody fuel id id (depth + 1)
    setBody id body
    return .fn id Ty.any

end

/-! ## Functions, classes and modules -/

/-- A depth bound for the nested generation steps. -/
def fuelFor (limits : Limits) : Nat := 4 * (limits.maxNesting + 3)

/-- A function in a container, with a dispatch receiver for a method; registered as a callee
before its body is made. -/
def genFunction (c : ContainerId) (receiver : Option Ty) : GenM Callee := do
  let limits ← read
  let fuel := fuelFor limits
  let composable ← coin
  let name ← fresh (if composable then "Content" else "helper")
  let id ← member c { name, kind := .function }
  if composable then markComposable id
  if ← chance 1 5 then modifyDecl id fun x => { x with visibility := .«private» }
  if let some r := receiver then dispatch id r
  let ext ← chance 1 5
  if ext then extension id Ty.string
  let n ← draw 0 limits.maxParams countWidth
  -- room is made for the shapes of the parameters, of 8 bytes each
  if n > (Nat.pow 2 63 - 1) / 8 then throw .capacityOverflow
  let params ← times n fun i => do
    let ty ← paramTy
    let hasDefault ← chance 1 3
    let default ← if hasDefault then some <$> genValue fuel id ty limits.maxNesting else pure none
    param id ("p" ++ toString i) ty default
    return ({ ty, hasDefault } : ParamShape)
  let callee : Callee := { decl := id, name, composable, params, returns := Ty.unit,
                           dispatch := receiver, extension := ext }
  modify fun s => { s with callees := s.callees.push callee }
  setBody id (← genBody fuel id id 0)
  return callee

/-- An override, in a class of type `classTy`, of a method of an earlier class: same name,
composability, parameter types and return type, no defaults of its own. The method overridden
becomes open. -/
def genOverride (c : ContainerId) (classTy : Ty) : GenM Callee := do
  let methods := (← get).classMethods
  let index ← draw 0 (methods.size - 1) countWidth
  let base := methods[index]?.getD default
  modifyDecl base.decl fun x => { x with modality := .«open» }
  let id ← member c { name := base.name, kind := .function }
  if base.composable then markComposable id
  modifyDecl id fun x => { x with overrides := x.overrides ++ [base.decl], returns := base.returns }
  dispatch id classTy
  if base.extension then extension id Ty.string
  base.params.zipIdx.forM fun (p, i) => param id ("p" ++ toString i) p.ty none
  setBody id (← genBody (fuelFor (← read)) id id 0)
  return { base with decl := id, dispatch := some classTy }

/-- A class in a file with its constructor, getter, override and methods. -/
def genClass (file : ContainerId) : GenM Unit := do
  let name ← fresh "Widget"
  let c ← alloc (·.addClass file name)
  let classTy := Ty.cls name []
  if ← chance 1 3 then
    let ctor ← member c { name := "<init>", kind := .constructor, body := some Expr.unit }
    if ← coin then
      let default ← emptyLambda ctor contentTy
      param ctor "content" contentTy (some default)
    else param ctor "content" contentTy none
  if ← chance 1 3 then
    let property ← fresh "state"
    let getterName := "<get-" ++ property ++ ">"
    let id ← member c { name := getterName, kind := .getter property }
    markComposable id
    modifyDecl id fun x => { x with returns := Ty.any }
    dispatch id classTy
    setBody id Expr.unit
    let getter : Callee := { decl := id, name := getterName, composable := true, params := [],
                             returns := Ty.any, dispatch := some classTy, extension := false }
    modify fun s => { s with callees := s.callees.push getter }
  let canOverride := !(← get).classMethods.isEmpty
  let overridden ← if canOverride then do
      if ← chance 1 2 then pure [← genOverride c classTy] else pure []
    else pure []
  let n ← draw 0 (← read).maxFunctions countWidth
  let methods ← times n fun _ => genFunction c (some classTy)
  modify fun s => { s with classMethods := s.classMethods ++ (overridden ++ methods).toArray }

/-- A whole module: files with their functions and classes, then the parents recomputed. -/
def genModule : GenM Unit := do
  let limits ← read
  let files ← draw 1 limits.maxFiles countWidth
  let _ ← times files fun _ => do
    let package ← if ← coin then do pure ("smith." ++ (← fresh "pkg")) else pure ""
    let file ← alloc (·.addFile package)
    let functions ← draw 1 limits.maxFunctions countWidth
    let _ ← times functions fun _ => genFunction file none
    let classes ← draw 0 limits.maxClasses countWidth
    let _ ← times classes fun _ => genClass file
  modifyModule Module.patchParents

/-- Generates a module from input bytes within limits. -/
def generate (limits : Limits) (bytes : List UInt8) : Except Fault Module := do
  let ((), s) ← (genModule.run limits).run { input := ⟨bytes⟩, module := { name := "generated" } }
  return s.module

end Fuzz

end ComposeLowering
