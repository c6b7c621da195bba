import ComposeLowering.Ir.Decl

/-!
# Modules

A module owns four arenas (declarations, containers, value names, type-parameter names) and
the list of its files. Containers form a tree: each file holds classes, each class may hold
further classes, and every container lists its member declarations in order. Lambdas and local
functions are not members: they hang below the declaration whose defaults or body hold them.

The *reachable* declarations are the members of the containers in order, each followed by its
nested declarations depth first. `patchParents` recomputes every declaration's parent from that
tree, so that whatever is no longer in it ends up detached.

Look-ups by index are total: an index past the end reads as a default declaration or
container. The indices stored in a module built by this library are always in range.
-/

namespace ComposeLowering

/-- A file, with its package, or a class, with its name. -/
inductive ContainerKind where
  | file (package : String)
  | cls (name : String)
  deriving DecidableEq, Repr, Inhabited

/-- A file or class with its member declarations and nested classes. -/
structure Container where
  kind : ContainerKind
  parent : Option ContainerId := none
  members : List DeclId := []
  classes : List ContainerId := []
  deriving Inhabited

/-- The parameter defaults and the body of a declaration, taken out to be transformed. -/
structure DeclExprs where
  defaults : List (Option Expr)
  body : Option Expr
  deriving Inhabited

/-- A module of declarations. -/
structure Module where
  name : String
  decls : Array Decl := #[]
  containers : Array Container := #[]
  files : List ContainerId := []
  values : Array String := #[]
  typeParams : Array String := #[]
  deriving Inhabited

namespace Module

/-! ## Arenas -/

/-- The declaration with index `id`. -/
def decl (m : Module) (id : DeclId) : Decl := m.decls[id]?.getD default

/-- Replaces the declaration with index `id`. -/
def setDecl (m : Module) (id : DeclId) (d : Decl) : Module :=
  { m with decls := m.decls.setIfInBounds id d }

/-- Changes the declaration with index `id`. -/
def modifyDecl (m : Module) (id : DeclId) (f : Decl → Decl) : Module :=
  { m with decls := m.decls.modify id f }

/-- Appends a declaration. -/
def allocDecl (m : Module) (d : Decl) : Module × DeclId :=
  ({ m with decls := m.decls.push d }, m.decls.size)

/-- The container with index `id`. -/
def container (m : Module) (id : ContainerId) : Container := m.containers[id]?.getD default

/-- Changes the container with index `id`. -/
def modifyContainer (m : Module) (id : ContainerId) (f : Container → Container) : Module :=
  { m with containers := m.containers.modify id f }

/-- Appends a value with a name. -/
def newValue (m : Module) (name : String) : Module × ValueId :=
  ({ m with values := m.values.push name }, m.values.size)

/-- Appends a type parameter with a name. -/
def newTypeParam (m : Module) (name : String) : Module × TypeParamId :=
  ({ m with typeParams := m.typeParams.push name }, m.typeParams.size)

/-- The declared name of a type parameter. -/
def typeParamName (m : Module) (id : TypeParamId) : String := m.typeParams[id]?.getD ""

/-- The name of a declaration. -/
def declName (m : Module) (id : DeclId) : String := (m.decl id).name

/-! ## Containers -/

/-- Adds a file with a package name to the end of the file list. -/
def addFile (m : Module) (package : String) : Module × ContainerId :=
  let id := m.containers.size
  ({ m with containers := m.containers.push { kind := .file package }, files := m.files ++ [id] }, id)

/-- Adds a class inside a container. -/
def addClass (m : Module) (parent : ContainerId) (name : String) : Module × ContainerId :=
  let id := m.containers.size
  let m := { m with containers := m.containers.push { kind := .cls name, parent := some parent } }
  (m.modifyContainer parent fun c => { c with classes := c.classes ++ [id] }, id)

/-- A container followed by its classes, depth first, to the given depth. -/
def subtreeContainers (m : Module) : Nat → ContainerId → List ContainerId
  | 0, _ => []
  | fuel + 1, c => c :: (m.container c).classes.flatMap (m.subtreeContainers fuel)

/-- Every container reachable from the files: each file followed by its classes, depth first. -/
def containersInOrder (m : Module) : List ContainerId :=
  m.files.flatMap (m.subtreeContainers (m.containers.size + 1))

/-- The package of the file that a container lies in, walking up at most `fuel` steps. -/
def packageOfAux (m : Module) : Nat → ContainerId → String
  | 0, _ => ""
  | fuel + 1, c =>
    let k := m.container c
    match k.kind, k.parent with
    | .file p, _ => p
    | .cls _, some up => m.packageOfAux fuel up
    | .cls _, none => ""

/-- The package of the file that a container lies in. -/
def packageOf (m : Module) (c : ContainerId) : String := m.packageOfAux (m.containers.size + 1) c

/-- The class names from a container up, innermost first. -/
def classPathRev (m : Module) : Nat → ContainerId → List String
  | 0, _ => []
  | fuel + 1, c =>
    let k := m.container c
    let here := match k.kind with
      | .cls n => [n]
      | .file _ => []
    here ++ match k.parent with
      | some up => m.classPathRev fuel up
      | none => []

/-- The names of the classes enclosing a container, itself included, outermost first. -/
def classPath (m : Module) (c : ContainerId) : List String :=
  (m.classPathRev (m.containers.size + 1) c).reverse

/-- The names taken in a container: its members' names and its classes' names. -/
def namesIn (m : Module) (c : ContainerId) : List String :=
  let k := m.container c
  k.members.map m.declName ++ k.classes.filterMap fun i =>
    match (m.container i).kind with
    | .cls n => some n
    | .file _ => none

/-- Appends a member to a container and makes the container its parent. -/
def addMember (m : Module) (c : ContainerId) (d : DeclId) : Module :=
  (m.modifyContainer c fun k => { k with members := k.members ++ [d] }).modifyDecl d
    fun x => { x with parent := .container c }

/-- Puts `new` in the place of the member `old`, if `old` is a member, and makes the container
the parent of `new`. -/
def replaceMember (m : Module) (c : ContainerId) (old new : DeclId) : Module :=
  if old ∈ (m.container c).members then
    (m.modifyContainer c fun k => { k with members := k.members.map fun x => if x = old then new else x }
      ).modifyDecl new fun x => { x with parent := .container c }
  else m

/-! ## Nesting -/

/-- Takes out the parameter defaults and the body of a declaration. -/
def takeExprs (m : Module) (id : DeclId) : Module × DeclExprs :=
  let d := m.decl id
  (m.setDecl id { d with params := d.params.map fun p => { p with default := none }, body := none },
    ⟨d.params.map (·.default), d.body⟩)

/-- Sets the defaults of the leading parameters, one per given default. -/
def putDefaults : List Param → List (Option Expr) → List Param
  | p :: ps, e :: es => { p with default := e } :: putDefaults ps es
  | ps, [] => ps
  | [], _ :: _ => []

/-- Puts parameter defaults and a body back into a declaration. -/
def putExprs (m : Module) (id : DeclId) (x : DeclExprs) : Module :=
  m.modifyDecl id fun d => { d with params := putDefaults d.params x.defaults, body := x.body }

/-- The lambdas and local functions directly inside a declaration. -/
def nestedDecls (m : Module) (id : DeclId) : List DeclId := (m.decl id).nestedFns

/-- The container whose member tree holds a declaration, following parents at most `fuel`
steps. -/
def containerOfAux (m : Module) : Nat → DeclId → Option ContainerId
  | 0, _ => none
  | fuel + 1, d =>
    match (m.decl d).parent with
    | .container c => some c
    | .decl outer => m.containerOfAux fuel outer
    | .detached => none

/-- The container whose member tree holds a declaration, or `none` for a detached one. -/
def containerOf (m : Module) (d : DeclId) : Option ContainerId :=
  m.containerOfAux (m.decls.size + 1) d

/-- Whether a declaration hangs anywhere. -/
def isAttached (m : Module) (d : DeclId) : Bool := (m.decl d).parent != .detached

/-- A declaration followed by its nested declarations, depth first, to the given depth. -/
def subtreeDecls (m : Module) : Nat → DeclId → List DeclId
  | 0, _ => []
  | fuel + 1, d => d :: (m.nestedDecls d).flatMap (m.subtreeDecls fuel)

/-- The members of the containers in order, each followed by its nested declarations. -/
def reachableDecls (m : Module) : List DeclId :=
  m.containersInOrder.flatMap fun c =>
    (m.container c).members.flatMap (m.subtreeDecls (m.decls.size + 1))

/-- Makes `outer` the parent of each declaration nested in it, and so on downwards, handling
the last nested declaration's subtree first. -/
def patchNested (m : Module) : Nat → DeclId → Module
  | 0, _ => m
  | fuel + 1, outer =>
    let nested := m.nestedDecls outer
    let m := nested.foldl (fun m n => m.modifyDecl n fun x => { x with parent := .decl outer }) m
    nested.reverse.foldl (fun m n => m.patchNested fuel n) m

/-- Recomputes every parent from the containers and the nesting: members get their container,
nested declarations their enclosing declaration, and all others are detached. -/
def patchParents (m : Module) : Module :=
  let m := { m with decls := m.decls.map fun (d : Decl) => { d with parent := .detached } }
  m.containersInOrder.foldl (fun m c =>
    (m.container c).members.foldl (fun m d =>
      (m.modifyDecl d fun x => { x with parent := .container c }).patchNested (m.decls.size + 1) d) m) m

end Module

end ComposeLowering
