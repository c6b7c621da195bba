import Std.Data.HashMap
import ComposeLowering.Spec.Field
import ComposeLowering.Ir.Module

/-!
# Building modules from descriptions

The builder reads a described unit and adds its declarations to a module, allocating arena
entries in a fixed order, so that the indices are predictable:

1. the containers: each new file, then its classes depth first;
2. for every member of those containers in that order, then for every external declaration:
   the declaration itself, its annotations, its type parameters, then its receivers' and
   parameters' values;
3. for the same declarations in the same order: the overridden declarations are resolved, and
   the parameter defaults and the body are built.

Descriptions are read as they are built (`Spec.Field` has the rules), so the first fault met
in this order is the one reported. An external declaration is of the external kind unless it
names another kind; a lambda or local function gets the fields its map lacks from
`lambdaDefaults` or `localFunctionDefaults`. Expressions are built depth first; a lambda or local function
is declared when it is reached and built at once. Finally the parents are recomputed.

Labels are resolved innermost first: the labels of the declaration being built (type
parameters, receivers, parameters and the `let`s of its body so far), then those of the
declarations around it, then every label ever bound, the latest binding winning. Declaration
and container labels are global; a declaration's own label is bound before its annotations are
read, so an annotation may name the declaration itself.

Types are written as text or as maps. A text names a base type (`Unit`, `Nothing`, `Any`,
`Boolean` or `Bool`, `Byte`, `Short`, `Int`, `Long`, `Float`, `Double`, `Char`, `String`,
`Composer`) or else a class with no arguments; a leading `@` makes it composable and a trailing
`?` nullable, except that the text `?` alone names a class called `?`. A map is the first present
of `class`, `fun`, `param` and `base`, with optional `nullable` and `composable` flags.
-/

namespace ComposeLowering

namespace Spec

/-- Why a description cannot be built. -/
inductive BuildError where
  /-- A field that breaks its reading rule; the text says which. -/
  | malformed (text : String)
  | unknownDecl (label : String)
  | noDecl (id : Nat)
  | unknownContainer (label : String)
  | noContainer (id : Nat)
  | noMember (position : Nat)
  | unknownValue (label : String)
  | unknownTypeParam (label : String)
  | unknownIntrinsic (name : String)
  /-- A return without a target outside every declaration. -/
  | returnOutside
  /-- A lambda or local function outside every declaration. -/
  | nestedOutside
  deriving Inhabited

/-- The text of a build error. -/
def BuildError.message : BuildError → String
  | .malformed s => s
  | .unknownDecl s => "unknown declaration `" ++ s ++ "`"
  | .noDecl i => "no declaration #" ++ toString i
  | .unknownContainer s => "unknown container `" ++ s ++ "`"
  | .noContainer i => "no container #" ++ toString i
  | .noMember i => "no member #" ++ toString i
  | .unknownValue s => "unknown value `" ++ s ++ "`"
  | .unknownTypeParam s => "unknown type parameter `" ++ s ++ "`"
  | .unknownIntrinsic s => "unknown intrinsic `" ++ s ++ "`"
  | .returnOutside => "return outside a declaration"
  | .nestedOutside => "nested function outside a declaration"

/-- The labels bound while building one declaration, latest first. -/
structure Frame where
  values : List (String × ValueId) := []
  typeParams : List (String × TypeParamId) := []
  deriving Inhabited

/-- Every label ever bound, and the types of the values, for the whole life of a module. -/
structure Labels where
  decls : Std.HashMap String DeclId := {}
  containers : Std.HashMap String ContainerId := {}
  values : Std.HashMap String ValueId := {}
  typeParams : Std.HashMap String TypeParamId := {}
  /-- The declared type of each value; for a `let`, the type of its initial value. -/
  valueTypes : Std.HashMap ValueId Ty := {}
  deriving Inhabited

/-- The state of a build: the module, the labels, the frames of declared declarations, and the
scopes and declarations being built, innermost first. -/
structure Builder where
  module : Module
  labels : Labels := {}
  frames : Std.HashMap DeclId Frame := {}
  scopes : List Frame := []
  building : List DeclId := []
  deriving Inhabited

/-- A build step. -/
abbrev BuildM := StateT Builder (Except BuildError)

/-- Runs a reading step; its error is a malformed description. -/
def read {α : Type} (x : ReadM α) : BuildM α :=
  match x with
  | .ok a => pure a
  | .error s => throw (.malformed s)

/-! ## Labels -/

/-- The first binding of a label in a list of frames. -/
def findInFrames {α : Type} (get : Frame → List (String × α)) (label : String) :
    List Frame → Option α
  | [] => none
  | f :: rest => match (get f).lookup label with
    | some x => some x
    | none => findInFrames get label rest

/-- Finds a type parameter by label in the given scopes, then globally. -/
def Builder.lookupTypeParam (b : Builder) (scopes : List Frame) (label : String) : Option TypeParamId :=
  (findInFrames (·.typeParams) label scopes).orElse fun _ => b.labels.typeParams[label]?

/-- Changes the module. -/
def modifyModule (f : Module → Module) : BuildM Unit :=
  modify fun b => { b with module := f b.module }

/-- Runs a module operation that returns an index. -/
def alloc {α : Type} (f : Module → Module × α) : BuildM α := do
  let b ← get
  let (m, x) := f b.module
  set { b with module := m }
  return x

/-- Binds a declaration label. -/
def bindDecl (label : String) (d : DeclId) : BuildM Unit :=
  modify fun b => { b with labels := { b.labels with decls := b.labels.decls.insert label d } }

/-- Binds a container label. -/
def bindContainer (label : String) (c : ContainerId) : BuildM Unit :=
  modify fun b => { b with labels := { b.labels with containers := b.labels.containers.insert label c } }

/-- Binds a value label in the innermost scope and globally, and records the value's type. -/
def bindValue (label : String) (v : ValueId) (t : Ty) : BuildM Unit :=
  modify fun b =>
    { b with
      labels := { b.labels with
        values := b.labels.values.insert label v
        valueTypes := b.labels.valueTypes.insert v t }
      scopes := match b.scopes with
        | f :: rest => { f with values := (label, v) :: f.values } :: rest
        | [] => [] }

/-- Binds a type-parameter label in the innermost scope and globally. -/
def bindTypeParam (label : String) (p : TypeParamId) : BuildM Unit :=
  modify fun b =>
    { b with
      labels := { b.labels with typeParams := b.labels.typeParams.insert label p }
      scopes := match b.scopes with
        | f :: rest => { f with typeParams := (label, p) :: f.typeParams } :: rest
        | [] => [] }

/-- The type of a value: its declared type, or `Any` for an unknown index. -/
def valueType (v : ValueId) : BuildM Ty := do
  return ((← get).labels.valueTypes[v]?).getD Ty.any

/-! ## References -/

/-- Resolves a value reference: a label, or `{"value": index}` whose index keeps its low 32
bits and is taken as it is. -/
def resolveValue (d : Document) : BuildM ValueId :=
  match d with
  | .str l => do
    let b ← get
    match (findInFrames (·.values) l b.scopes).orElse fun _ => b.labels.values[l]? with
    | some v => pure v
    | none => throw (.unknownValue l)
  | .map _ =>
    if (d.get? "value").isSome then do return rawIndex (← read (count d "value" 0))
    else throw (.malformed ("bad value reference " ++ d.toJson))
  | other => throw (.malformed ("bad value reference " ++ other.toJson))

/-- Resolves a container reference: a label or an index. -/
def resolveContainer (d : Document) : BuildM ContainerId :=
  match d with
  | .str l => do
    match (← get).labels.containers[l]? with
    | some c => pure c
    | none => throw (.unknownContainer l)
  | other => match other.word? with
    | some c => do
      if c < (← get).module.containers.size then pure c else throw (.noContainer c)
    | none => throw (.malformed ("bad container reference " ++ other.toJson))

/-- Resolves a declaration reference: a label, `{"decl": index}`, or
`{"member": container, "index": position}` for a container's current member. -/
def resolveDecl (d : Document) : BuildM DeclId :=
  match d with
  | .str l => do
    match (← get).labels.decls[l]? with
    | some x => pure x
    | none => throw (.unknownDecl l)
  | .map _ =>
    if let some i := d.field? "decl" then
      match i.word? with
      | some n => do
        if n < (← get).module.decls.size then pure n else throw (.noDecl n)
      | none => throw (.malformed "decl id")
    else if let some c := d.field? "member" then do
      let c ← resolveContainer c
      let i ← read (count d "index" 0)
      match ((← get).module.container c).members[i]? with
      | some x => pure x
      | none => throw (.noMember i)
    else throw (.malformed ("bad declaration reference " ++ d.toJson))
  | other => throw (.malformed ("bad declaration reference " ++ other.toJson))

/-! ## Types -/

/-- The base type a name denotes, if it names one. -/
def baseOfName? : String → Option Base
  | "Unit" => some .unit
  | "Nothing" => some .nothing
  | "Any" => some .any
  | "Boolean" | "Bool" => some .bool
  | "Byte" => some .byte
  | "Short" => some .short
  | "Int" => some .int
  | "Long" => some .long
  | "Float" => some .float
  | "Double" => some .double
  | "Char" => some .char
  | "String" => some .string
  | "Composer" => some .composer
  | _ => none

/-- The shape a name denotes: a base type or a class without arguments. -/
def shapeOfName (name : String) : Shape Ty :=
  match baseOfName? name with
  | some b => .base b
  | none => .cls name [] none

/-- The type written as text: `@` in front for composable, `?` behind for nullable. -/
def tyOfText (s : String) : Ty :=
  let (composable, rest) := match s.toList with
    | '@' :: r => (true, String.ofList r)
    | _ => (false, s)
  let (nullable, name) :=
    if rest != "?" && rest.endsWith "?" then (true, String.ofList rest.toList.dropLast) else (false, rest)
  ⟨shapeOfName name, nullable, composable⟩

/-- Builds a described type, finding type parameters in the current scopes; `fuel` bounds the
nesting. -/
def buildTy : Nat → Document → BuildM Ty
  | 0, _ => throw (.malformed "type nested too deeply")
  | fuel + 1, d => match d with
    | .str s => pure (tyOfText s)
    | .map _ => do
      let nullable ← read (flag d "nullable")
      let composable ← read (flag d "composable")
      if let some n := d.field? "class" then
        let some name := n.text? | throw (.malformed "class name")
        let args ← (← read (array d "args")).mapM (buildTy fuel)
        let u ← (d.get? "underlying").mapM (buildTy fuel)
        return ⟨.cls name args u, nullable, composable⟩
      if let some ps := d.field? "fun" then
        let ps ← (← read (selectedArray "fun" ps)).mapM (buildTy fuel)
        let ret ← match d.get? "ret" with
          | some r => buildTy fuel r
          | none => pure Ty.unit
        return ⟨.fn ps ret, nullable, composable⟩
      if let some l := d.field? "param" then
        let some label := l.text? | throw (.malformed "param label")
        let b ← get
        match b.lookupTypeParam b.scopes label with
        | some p => return ⟨.param p, nullable, composable⟩
        | none => throw (.unknownTypeParam label)
      if let some n := d.field? "base" then
        let some name := n.text? | throw (.malformed "base name")
        return ⟨shapeOfName name, nullable, composable⟩
      throw (.malformed ("bad type " ++ d.toJson))
    | other => throw (.malformed ("bad type " ++ other.toJson))

/-- Builds an optional type: `dflt` when the key is absent or `null`. -/
def buildTyOr (fuel : Nat) (d : Document) (key : String) (dflt : Ty) : BuildM Ty :=
  match d.get? key with
  | some t => buildTy fuel t
  | none => pure dflt

/-! ## Declarations -/

/-- Where a declaration is placed: as a member of a container, detached, or nested in the
declaration being built. -/
inductive Place where
  | member (c : ContainerId)
  | detached
  | nested
  deriving Inhabited

/-- The kind a description names, `dflt` when it names none. -/
def kindOf (d : Document) (dflt : String) : ReadM DeclKind := do
  let kind ← text d "kind" dflt
  let property ← text d "property" "p"
  match kind with
  | "function" => pure .function
  | "getter" => pure (.getter property)
  | "setter" => pure (.setter property)
  | "constructor" => pure .constructor
  | "external" => pure .externalSource
  | k => throw ("unknown declaration kind `" ++ k ++ "`")

/-- The name a declaration of a kind gets when its description has none. -/
def defaultName : DeclKind → String
  | .getter p => "<get-" ++ p ++ ">"
  | .setter p => "<set-" ++ p ++ ">"
  | .constructor => "<init>"
  | _ => "f"

/-- The visibility a description names; public by default. -/
def visibilityOf (d : Document) : ReadM Visibility := do
  match ← text d "visibility" "public" with
  | "public" => pure .«public»
  | "protected" => pure .«protected»
  | "internal" => pure .internal
  | "private" => pure .«private»
  | "local" => pure .«local»
  | v => throw ("unknown visibility `" ++ v ++ "`")

/-- The modality a description names; final by default. -/
def modalityOf (d : Document) : ReadM Modality := do
  match ← optText d "modality" with
  | none | some "final" => pure .final
  | some "open" => pure .«open»
  | some "abstract" => pure .abstract
  | some v => throw ("unknown modality `" ++ v ++ "`")

/-- The origin a description names; external for the external kind, defined otherwise. -/
def originOf (d : Document) (kind : DeclKind) : ReadM DeclOrigin := do
  match ← optText d "origin" with
  | none => pure (if kind == .externalSource then .external else .defined)
  | some "defined" => pure .defined
  | some "lambda" => pure .lambda
  | some "external" => pure .external
  | some v => throw ("unknown origin `" ++ v ++ "`")

/-- The origin a parameter description names; defined by default. -/
def paramOriginOf (d : Document) : ReadM ParamOrigin := do
  match ← optText d "origin" with
  | none | some "defined" => pure .defined
  | some "receiver" => pure .receiver
  | some "composer" => pure .composer
  | some "changed" => pure .changed
  | some "default" => pure .defaultMask
  | some o => throw ("unknown parameter origin `" ++ o ++ "`")

/-- Reads an annotation: `"composable"`, or a map whose first present key of `decoy`,
`decoy_impl`, `link_name` and `other` says which. A decoy's signature parts from another
declaration's decoy annotation come before its own. -/
def buildAnnotation (d : Document) : BuildM Annotation :=
  match d with
  | .str "composable" => pure .composable
  | .map _ => do
    if let some x := d.field? "decoy" then
      let target ← read (text x "target" "")
      let fromParts ← match x.get? "signature_from" with
        | some r => do
          let src ← resolveDecl r
          pure ((((← get).module.decl src).decoy?.map (·.2)).getD [])
        | none => pure []
      let own ← (← read (array x "signature")).mapM fun
        | .str s => pure s
        | _ => throw (.malformed "decoy signature parts must be strings")
      return .decoy target (fromParts ++ own)
    if let some n ← read (optText d "decoy_impl") then return .decoyImpl n
    if let some n ← read (optText d "link_name") then return .linkName n
    if let some n ← read (optText d "other") then return .other n
    throw (.malformed ("bad annotation " ++ d.toJson))
  | other => throw (.malformed ("bad annotation " ++ other.toJson))

/-- Declares a parameter: allocates its value and binds its label, `name` by default. -/
def declareParam (fuel : Nat) (p : Document) : BuildM Param := do
  let name ← read (text p "name" "p")
  let label ← read (text p "id" name)
  let ty ← buildTyOr fuel p "ty" Ty.int
  let vararg ← (p.get? "vararg").mapM (buildTy fuel)
  let crossinline ← read (flag p "crossinline")
  let noinline ← read (flag p "noinline")
  let assignable ← read (flag p "assignable")
  let origin ← read (paramOriginOf p)
  let v ← alloc (·.newValue name)
  bindValue label v ty
  return { value := v, name, ty, vararg, crossinline, noinline, assignable, origin }

/-- Declares a receiver of the type under `key`, if there is one, with its label and name. -/
def declareReceiver (fuel : Nat) (d : Document) (key : String) (label name : String) :
    BuildM (Option Param) := do
  match d.get? key with
  | none => return none
  | some t =>
    let ty ← buildTy fuel t
    let label ← read (text d (key ++ "_id") label)
    let name ← read (text d (key ++ "_name") name)
    let v ← alloc (·.newValue name)
    bindValue label v ty
    return some { value := v, name, ty, origin := .receiver }

/-- Declares a described declaration of the kind `defaultKind` unless it names one: allocates
it, binds its label, reads its annotations, then allocates its type parameters, receivers and
parameters, binding their labels in a new scope that is kept for building its body. -/
def declare (fuel : Nat) (d : Document) (defaultKind : String) (place : Place) : BuildM DeclId := do
  let kind ← read (kindOf d defaultKind)
  let name ← read (text d "name" (defaultName kind))
  let label ← read (text d "id" name)
  let visibility ← read (visibilityOf d)
  let modality ← read (modalityOf d)
  let origin ← read (originOf d kind)
  let composable ← read (flag d "composable")
  let isInline ← read (flag d "inline")
  let isExpect ← read (flag d "expect")
  let isExternal ← read (flag d "external")
  let parent : Parent := match place, (← get).building with
    | .nested, outer :: _ => .decl outer
    | _, _ => .detached
  let id ← alloc (·.allocDecl
    { name, kind, origin, visibility, modality, isInline, isExpect,
      isExternal := isExternal || kind == .externalSource, parent })
  match place with
  | .member c => modifyModule (·.addMember c id)
  | _ => pure ()
  bindDecl label id
  let anns ← (← read (array d "annotations")).mapM buildAnnotation
  let copied ← match d.get? "copy_annotations_from" with
    | some r => do pure ((← get).module.decl (← resolveDecl r)).annotations
    | none => pure []
  modifyModule fun m => m.modifyDecl id fun x =>
    { x with annotations := (if composable then [.composable] else []) ++ anns ++ copied }
  -- the new declaration's labels go into a scope of their own
  let outer := (← get).scopes
  modify fun b => { b with scopes := {} :: outer }
  let tps ← (← read (array d "type_params")).mapM fun t => do
    let (n, l) ← match t with
      | .str n => pure (n, n)
      | _ => do
        let n ← read (text t "name" "T")
        pure (n, ← read (text t "id" n))
    let p ← alloc (·.newTypeParam n)
    bindTypeParam l p
    return ({ id := p, name := n } : TypeParam)
  let dispatch ← declareReceiver fuel d "dispatch_receiver" "this" "<this>"
  let extension ← declareReceiver fuel d "extension_receiver" "ext" "<this>"
  let params ← (← read (array d "params")).mapM (declareParam fuel)
  let returns ← buildTyOr fuel d "returns" Ty.unit
  let inlineArgument ← (d.get? "inline_argument").mapM (buildTy fuel)
  let frame := ((← get).scopes.head?).getD {}
  modify fun b => { b with scopes := outer, frames := b.frames.insert id frame }
  modifyModule fun m => m.modifyDecl id fun x =>
    { x with typeParams := tps, dispatch, extension, params, returns, inlineArgument }
  return id

/-! ## Expressions -/

mutual

/-- Builds a described expression: the first present key of `exprKeys` selects its form, and a
`ty` key gives its type. -/
def buildExpr : Nat → Document → BuildM Expr
  | 0, _ => throw (.malformed "expression nested too deeply")
  | fuel + 1, d => do
    let some key := exprKeys.find? d.has | throw (.malformed ("bad expression " ++ d.toJson))
    let v := (d.field? key).getD .null
    -- a key present with `null` is built as `null`; an absent one is the empty block
    let orUnit (k : String) : BuildM Expr := match d.field? k with
      | some x => buildExpr fuel x
      | none => pure Expr.unit
    let opt (k : String) : BuildM (Option Expr) := (d.get? k).mapM (buildExpr fuel)
    let typeArgs : BuildM (List Ty) := do (← read (array d "type_args")).mapM (buildTy fuel)
    let args : BuildM (List (Option Expr)) := do
      (← read (array d "args")).mapM fun
        | .null => pure none
        | a => some <$> buildExpr fuel a
    let nested (defaults : List (String × Document)) : BuildM Expr := do
      let .map _ := v | throw (.malformed "nested function must be an object")
      if (← get).building.isEmpty then throw .nestedOutside
      let desc := v.withDefaults defaults
      let id ← declare fuel desc "function" .nested
      define fuel id desc
      return .fn id Ty.any
    let e : Expr ← match key with
      | "int" => do pure (.const (.int (Int32.ofInt (← read (intLit "Int" (-2147483648) 2147483647 v)))) Ty.int)
      | "long" => do pure (.const (.long (Int64.ofInt (← read (longLit v)))) Ty.long)
      | "byte" => do pure (.const (.byte (Int8.ofInt (← read (intLit "Byte" (-128) 127 v)))) (Ty.ofBase .byte))
      | "short" => do
        pure (.const (.short (Int16.ofInt (← read (intLit "Short" (-32768) 32767 v)))) (Ty.ofBase .short))
      | "float" => do
        let bits ← read (floatLit v)
        let narrowed := Decimal.BinaryFormat.convert .binary64 .binary32 bits.toNat
        pure (.const (.float narrowed.toUInt32) (Ty.ofBase .float))
      | "double" => do pure (.const (.double (← read (floatLit v))) (Ty.ofBase .double))
      | "char" => do pure (.const (.char (← read (charLit v))) (Ty.ofBase .char))
      | "string" => do pure (.const (.string (← read (stringLit v))) Ty.string)
      | "bool" => do pure (.const (.bool (← read (boolLit v))) Ty.boolean)
      | "null" => pure (.const .null Ty.any.withNullable)
      | "get" => do
        let r ← resolveValue v
        pure (.get r (← valueType r))
      | "set" => do
        let r ← resolveValue v
        pure (.set r (← orUnit "expr") Ty.unit)
      | "let" => do
        let some label := v.text? | throw (.malformed "let label")
        let name ← read (text d "name" label)
        let i ← orUnit "init"
        let r ← alloc (·.newValue name)
        bindValue label r i.ty
        pure (.letVal r i Ty.unit)
      | "block" => do pure (.block (← (← read (array d "block")).mapM (buildExpr fuel)) Ty.unit)
      | "if" => do
        let c ← buildExpr fuel v
        let t ← orUnit "then"
        pure (.ite c t (← opt "else") Ty.unit)
      | "call" => do
        let t ← resolveDecl v
        let dr ← opt "dispatch"
        let er ← opt "extension"
        let ta ← typeArgs
        let xs ← args
        let cc ← read (flag d "composable_call")
        pure (.call (.decl t) dr er ta xs cc ((← get).module.decl t).returns)
      | "invoke" => do
        let r ← buildExpr fuel v
        let er ← opt "extension"
        let ta ← typeArgs
        let xs ← args
        let arity ← read (count d "arity" xs.length)
        let cc ← read (flag d "composable_call")
        pure (.call (.invoke arity) (some r) er ta xs cc Ty.unit)
      | "intrinsic" => do
        let name := v.text?.getD ""
        if name != "decoy" then throw (.unknownIntrinsic name)
        let dr ← opt "dispatch"
        let er ← opt "extension"
        let ta ← typeArgs
        let xs ← args
        let cc ← read (flag d "composable_call")
        pure (.call .decoy dr er ta xs cc Ty.nothing)
      | "return" => do
        let t ← match d.get? "target" with
          | some r => resolveDecl r
          | none => match (← get).building with
            | x :: _ => pure x
            | [] => throw .returnOutside
        pure (.ret t (← buildExpr fuel v) Ty.nothing)
      | "lambda" => nested lambdaDefaults
      | "local_fun" => nested localFunctionDefaults
      | "composite" => do
        let xs ← (← read (array d "composite")).mapM (buildExpr fuel)
        let isDefault ← read (flag d "default")
        pure (.composite (if isDefault then .defaultValue else .statements) xs Ty.unit)
      | "vararg" => do pure (.vararg (← (← read (array d "vararg")).mapM (buildExpr fuel)) Ty.any)
      | "inline_new" => do pure (.inlineNew (← buildExpr fuel v) Ty.any)
      | "mask_bit" => do
        let r ← resolveValue v
        let bit ← read (count d "bit" 0)
        pure (.maskBit r (rawIndex bit) Ty.boolean)
      | _ => pure Expr.unit
    match d.get? "ty" with
    | some t => return e.withTy (← buildTy fuel t)
    | none => return e

/-- Builds the overrides, parameter defaults and body of a declared declaration, in the scope
kept from its declaration inside the scopes around it. A constructor without a `body` key gets
an empty block; `"body": null` means no body. -/
def define : Nat → DeclId → Document → BuildM Unit
  | 0, _, _ => throw (.malformed "declaration nested too deeply")
  | fuel + 1, id, d => do
    let overrides ← (← read (array d "overrides")).mapM resolveDecl
    let b ← get
    let outerScopes := b.scopes
    let outerBuilding := b.building
    set { b with scopes := (b.frames[id]?.getD {}) :: outerScopes, building := id :: outerBuilding }
    let defaults ← (← read (array d "params")).mapM fun p => (p.get? "default").mapM (buildExpr fuel)
    let body ← match d.field? "body" with
      | some .null => pure none
      | some x => some <$> buildExpr fuel x
      | none => pure (if ((← get).module.decl id).kind == .constructor then some Expr.unit else none)
    modify fun b => { b with scopes := outerScopes, building := outerBuilding }
    modifyModule fun m =>
      (m.modifyDecl id fun x => { x with overrides }).putExprs id ⟨defaults, body⟩

end

/-! ## Units -/

/-- Adds described classes under a container, each followed by its own classes, pairing each
new class with its member descriptions. -/
def placeClasses : Nat → ContainerId → List Document → BuildM (List (ContainerId × List Document))
  | 0, _, _ => throw (.malformed "class nested too deeply")
  | fuel + 1, parent, cs => do
    let placed ← cs.mapM fun c => do
      let name ← read (text c "name" "C")
      let label ← read (text c "id" name)
      let id ← alloc (·.addClass parent name)
      bindContainer label id
      let members ← read (array c "members")
      let inner ← placeClasses fuel id (← read (array c "classes"))
      return (id, members) :: inner
    return placed.flatten

/-- Adds the container of a described file (a new file, labelled `file<i>` by default, or an
existing container) and its classes. -/
def placeFile (fuel : Nat) (f : Document) (i : Nat) : BuildM (List (ContainerId × List Document)) := do
  let c ← match f.field? "existing" with
    | some r => resolveContainer r
    | none => do
      let package ← read (text f "package" "")
      let label ← read (text f "id" ("file" ++ toString i))
      let c ← alloc (·.addFile package)
      bindContainer label c
      pure c
  let members ← read (array f "members")
  return (c, members) :: (← placeClasses fuel c (← read (array f "classes")))

/-- Builds a described unit: its containers, then every declaration in two phases, then the
parents. Returns the container members and external declarations in the order they were
allocated. With `clearFiles`, the module's file list is emptied first. -/
def buildUnit (u : Document) (clearFiles : Bool) : BuildM (List DeclId) := do
  let fuel := u.depth + 1
  if clearFiles then modifyModule fun m => { m with files := [] }
  let files ← read (array u "files")
  let externals ← read (array u "externals")
  let placed ← files.zipIdx.mapM fun (f, i) => placeFile fuel f i
  let members ← placed.flatten.flatMapM fun (c, ds) => ds.mapM fun d => do
    return (← declare fuel d "function" (.member c), d)
  let externals ← externals.mapM fun d => do return (← declare fuel d "external" .detached, d)
  let all := members ++ externals
  all.forM fun (id, d) => define fuel id d
  modifyModule Module.patchParents
  return all.map (·.1)

/-- Builds a described type to the depth of its document. -/
def readTy (d : Document) : BuildM Ty := buildTy (d.depth + 1) d

/-- Builds a described expression to the depth of its document. -/
def readExpr (d : Document) : BuildM Expr := buildExpr (d.depth + 1) d

end Spec

end ComposeLowering
