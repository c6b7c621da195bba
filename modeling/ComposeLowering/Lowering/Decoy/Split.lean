import ComposeLowering.Lowering.Decoy.Rules
import ComposeLowering.Lowering.Names
import ComposeLowering.Ir.Copy

/-!
# Splitting declarations into decoys and implementations

Every member that is remapped, and is neither an external declaration nor already a decoy,
is split in two. A deep copy becomes the implementation: it is renamed to the first free name
among `N$composable`, `N$composable0`, `N$composable1`, … (free meaning taken neither by a
member or class of the container nor by an implementation already planned there), its
parameters lose any leading `$`, an accessor becomes a plain function, and it is marked as the
implementation of that name. The declaration stays in place as the stub: its annotations are
replaced by the decoy annotation, a non-constructor loses its parameter defaults, and a body
(a constructor always has one) becomes a return of the decoy intrinsic applied to the
own name. The implementations are appended to their containers after all members have
been visited.
-/

namespace ComposeLowering

namespace Decoy

/-- The state of the split: the module, the implementations to append, and the names taken so
far per container. -/
structure SplitState where
  module : Module
  pending : List (ContainerId × DeclId) := []
  claimed : List (ContainerId × String) := []
  deriving Inhabited

/-- Whether a name is free for an implementation in a container. -/
def SplitState.isFree (s : SplitState) (c : ContainerId) (taken : List String) (name : String) : Bool :=
  !s.claimed.contains (c, name) && !taken.contains name

/-- The first free name among `base`, `base0`, `base1`, …; among the first
`claimed + taken + 1` numbered names one is always free. -/
def SplitState.implementationName (s : SplitState) (c : ContainerId) (d : DeclId) : String :=
  let base := Names.dexSafe (s.module.declName d) ++ implSuffix
  let taken := s.module.namesIn c
  if s.isFree c taken base then base
  else
    let bound := s.claimed.length + taken.length + 1
    ((List.range bound).map (fun i => base ++ toString i)).find? (s.isFree c taken) |>.getD base

/-- Drops leading `$` characters. -/
def trimDollars (s : String) : String := String.ofList (s.toList.dropWhile (· == '$'))

/-- The stub body: a return of the decoy intrinsic applied to the declaration's name. -/
def stubBody (d : DeclId) (name : String) : Expr :=
  .block [.ret d (.call .decoy none none [] [some (.const (.string name) Ty.string)] false Ty.nothing)
    Ty.nothing] Ty.nothing

/-- The implementation named `name` made from a deep copy `x` of a member: renamed, defined
rather than a lambda or external, an accessor made a plain function, each parameter named by the
safe form of its name stripped of leading `$`, and marked as the implementation of `name`. -/
def implementationDecl (name : String) (x : Decl) : Decl :=
  { x with
    name
    origin := .defined
    kind := match x.kind with
      | .getter _ | .setter _ => .function
      | k => k
    params := x.params.map fun p => { p with name := trimDollars (Names.dexSafe p.name) }
    annotations := x.annotations ++ [.decoyImpl name] }

/-- Splits one member into a stub and a planned implementation. -/
def SplitState.split (s : SplitState) (c : ContainerId) (d : DeclId) : Except LowerError SplitState := do
  let name := s.implementationName c d
  let (m, impl) ← liftFault (s.module.deepCopy d)
  let m := m.modifyDecl impl (implementationDecl name)
  let stubName := m.declName d
  let m := m.modifyDecl d fun x =>
    let isConstructor := x.kind == .constructor
    { x with
      annotations := [.decoy name []]
      params := if isConstructor then x.params else x.params.map fun p => { p with default := none }
      body := if x.body.isSome || isConstructor then some (stubBody d stubName) else x.body }
  return { module := m, pending := s.pending ++ [(c, impl)], claimed := s.claimed ++ [(c, name)] }

/-- Splits every remapped member of every container, then appends the implementations and
recomputes the parents. Returns the module and the number of decoys made. -/
def splitModule (m : Module) : Except LowerError (Module × Nat) := do
  let s ← m.containersInOrder.foldlM (fun s c =>
    (s.module.container c).members.foldlM (fun s d =>
      let x := s.module.decl d
      if x.kind == .externalSource || x.isDecoy then pure s
      else if remapped s.module d then s.split c d
      else pure s) s) ({ module := m } : SplitState)
  let m := s.pending.foldl (fun m (c, impl) => m.addMember c impl) s.module
  return (m.patchParents, s.claimed.length)

end Decoy

end ComposeLowering
