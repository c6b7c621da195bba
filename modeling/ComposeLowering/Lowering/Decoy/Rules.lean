import ComposeLowering.Lowering.Context
import ComposeLowering.Lowering.Error
import ComposeLowering.Ir.Dump

/-!
# Decoys

On platforms that link by signature, a declaration that gains synthetic parameters cannot keep
its name: callers compiled against the old signature would break. Instead the declaration stays
in place as a *decoy* stub with its former signature, and a copy with the suffix
`$composable` becomes the implementation. The stub's decoy annotation names the
implementation and, once recorded, carries the implementation's signature parts.

A declaration is remapped when it is not a local function and it is composable or takes a
parameter or extension receiver whose type involves a composable type. A local function is a
lambda, or a local declaration that overrides no decoy and nothing that is remapped.

The implementation of a decoy is found, in this order: a member of the decoy's container
implementing its target name; nothing, when the decoy carries no signature; an error, when its
signature parts do not read; the member of its class whose public signature is the recorded
one; or, outside classes, the declaration that the symbol table resolves the signature to.
-/

namespace ComposeLowering

namespace Decoy

/-- The suffix of implementation names. -/
def implSuffix : String := "$composable"

mutual

/-- Whether a declaration is a local function, following overrides to the given depth. -/
def isLocalFunction (m : Module) : Nat → DeclId → Bool
  | 0, _ => false
  | fuel + 1, d =>
    let x := m.decl d
    x.isLambda ||
      (x.isLocal && !x.overrides.any fun o => (m.decl o).isDecoy || shouldBeRemapped m fuel o)

/-- Whether a declaration gets a decoy, following overrides to the given depth. -/
def shouldBeRemapped (m : Module) : Nat → DeclId → Bool
  | 0, _ => false
  | fuel + 1, d =>
    let x := m.decl d
    !isLocalFunction m fuel d &&
      (x.isMarkedComposable || (x.params ++ x.extension.toList).any fun p => p.ty.hasComposable)

end

/-- Whether a declaration gets a decoy. Each declaration of an override chain takes two steps
of depth, one for each of the two rules, so twice the number of declarations follows any chain
without a cycle to its end. -/
def remapped (m : Module) (d : DeclId) : Bool := shouldBeRemapped m (2 * m.decls.size + 2) d

/-- The error for a decoy whose implementation named `target` is not found. -/
def missing (m : Module) (d : DeclId) (target : String) : Except LowerError DeclId := do
  throw (.missingDecoyImplementation (← liftFault (m.dumpSignature d)) target)

/-- The implementation of a decoy. -/
def implementationFor (ctx : LowerContext) (m : Module) (d : DeclId) : Except LowerError DeclId := do
  match (m.decl d).decoy? with
  | none => missing m d ""
  | some (target, parts) =>
    let container := m.containerOf d
    let local? := container.bind fun c =>
      (m.container c).members.find? fun x => (m.decl x).decoyImplName? == some target
    match local? with
    | some impl => pure impl
    | none =>
      if parts.isEmpty then missing m d target
      else match IdSignature.ofParts? parts with
        | none => throw (.malformedDecoySignature (← liftFault (m.dumpSignature d)) parts.length)
        | some sig =>
          let found := match container with
            | some c =>
              if (m.classPath c).isEmpty then ctx.resolver.resolve sig
              else (m.container c).members.find? fun x => m.publicSignature ctx.platform x == some sig
            | none => ctx.resolver.resolve sig
          match found with
          | some impl => pure impl
          | none => missing m d target

end Decoy

end ComposeLowering
