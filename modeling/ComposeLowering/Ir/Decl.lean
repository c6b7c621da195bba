import ComposeLowering.Ir.Expr

/-!
# Declarations

A declaration is a function-like member: a plain function, a property getter or setter, a
constructor, or a declaration whose body lives in another compilation unit. It has optional
dispatch and extension receivers, a parameter list, a return type, an optional body, the
declarations it overrides, and annotations. Its `parent` records where it hangs in the module:
in a container's member list, inside another declaration's body as a lambda or local function,
or nowhere.

Parameters carry an origin: a declared parameter, a receiver, or one of the three kinds of
synthetic parameter that lowering appends (the composer, the change words, the default masks).
-/

namespace ComposeLowering

/-- The kind of a declaration; accessors remember their property's name. -/
inductive DeclKind where
  | function
  | getter (property : String)
  | setter (property : String)
  | constructor
  | externalSource
  deriving DecidableEq, Repr, Inhabited

/-- Where a declaration comes from. -/
inductive DeclOrigin where
  | defined
  /-- The function of a lambda expression. -/
  | lambda
  | external
  deriving DecidableEq, Repr, Inhabited

/-- Declared visibility. -/
inductive Visibility where
  | «public» | «protected» | internal | «private» | «local»
  deriving DecidableEq, Repr, Inhabited

/-- Whether a declaration may be overridden. -/
inductive Modality where
  | final | «open» | abstract
  deriving DecidableEq, Repr, Inhabited

/-- Where a declaration hangs in its module. -/
inductive Parent where
  | detached
  | container (id : ContainerId)
  | decl (id : DeclId)
  deriving DecidableEq, Repr, Inhabited

/-- The origin of a parameter. -/
inductive ParamOrigin where
  | defined
  | receiver
  | composer
  | changed
  | defaultMask
  deriving DecidableEq, Repr, Inhabited

/-- The three origins of the parameters that lowering appends. -/
def ParamOrigin.isSynthetic : ParamOrigin → Bool
  | .composer | .changed | .defaultMask => true
  | _ => false

/-- A parameter or receiver: its value, name, type and default, and its flags. -/
structure Param where
  value : ValueId
  name : String
  ty : Ty
  default : Option Expr := none
  vararg : Option Ty := none
  crossinline : Bool := false
  noinline : Bool := false
  assignable : Bool := false
  origin : ParamOrigin := .defined
  deriving Inhabited

/-- An annotation on a declaration. A *decoy* is a stub that keeps a declaration's former
signature and names its implementation `target`, with the implementation's signature parts;
the implementation carries the matching `decoyImpl` name. -/
inductive Annotation where
  | composable
  | decoy (target : String) (signature : List String)
  | decoyImpl (name : String)
  | linkName (name : String)
  | other (name : String)
  deriving DecidableEq, Repr, Inhabited

/-- A declared type parameter: its index in the module and its name. -/
structure TypeParam where
  id : TypeParamId
  name : String
  deriving DecidableEq, Repr, Inhabited

/-- A declaration. -/
structure Decl where
  name : String
  kind : DeclKind
  origin : DeclOrigin := .defined
  visibility : Visibility := .«public»
  modality : Modality := .final
  isInline : Bool := false
  isExpect : Bool := false
  isExternal : Bool := false
  parent : Parent := .detached
  typeParams : List TypeParam := []
  dispatch : Option Param := none
  extension : Option Param := none
  params : List Param := []
  returns : Ty := Ty.unit
  body : Option Expr := none
  overrides : List DeclId := []
  annotations : List Annotation := []
  inlineArgument : Option Ty := none
  deriving Inhabited

namespace Decl

/-- Whether the declaration is annotated composable. -/
def isMarkedComposable (d : Decl) : Bool :=
  d.annotations.any fun a => a == .composable

/-- The first decoy annotation's target and signature parts. -/
def decoy? (d : Decl) : Option (String × List String) :=
  d.annotations.findSome? fun
    | .decoy t s => some (t, s)
    | _ => none

/-- Whether the declaration is a decoy stub. -/
def isDecoy (d : Decl) : Bool := d.decoy?.isSome

/-- The name under which the declaration implements a decoy, if it does. -/
def decoyImplName? (d : Decl) : Option String :=
  d.annotations.findSome? fun
    | .decoyImpl n => some n
    | _ => none

/-- The first link name annotation. -/
def linkName? (d : Decl) : Option String :=
  d.annotations.findSome? fun
    | .linkName n => some n
    | _ => none

/-- The dispatch receiver, then the extension receiver, where present. -/
def receivers (d : Decl) : List Param := d.dispatch.toList ++ d.extension.toList

/-- The receivers followed by the parameters. -/
def explicitParams (d : Decl) : List Param := d.receivers ++ d.params

/-- The number of receivers. -/
def receiverSlots (d : Decl) : Nat := d.receivers.length

/-- Whether some parameter declares a default value. -/
def hasDefaultValues (d : Decl) : Bool := d.params.any fun p => p.default.isSome

/-- Lambdas and declarations of local visibility are local. -/
def isLocal (d : Decl) : Bool := d.visibility == .«local» || d.origin == .lambda

/-- Whether the declaration is the function of a lambda. -/
def isLambda (d : Decl) : Bool := d.origin == .lambda

/-- The parameters that lowering did not append. -/
def realParams (d : Decl) : List Param := d.params.filter fun p => !p.origin.isSynthetic

/-- The lambdas and local functions that the defaults and the body hold directly, defaults
first. -/
def nestedFns (d : Decl) : List DeclId :=
  (d.params.filterMap (·.default)).flatMap Expr.nestedFns ++ (d.body.map Expr.nestedFns).getD []

end Decl

end ComposeLowering
