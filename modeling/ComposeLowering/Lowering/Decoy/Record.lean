import ComposeLowering.Lowering.Decoy.Rules

/-!
# Recorded decoy signatures

Every reachable, exported decoy records the public signature of its implementation, as four
parts, in each of its decoy annotations. An implementation without a public signature is an
error.
-/

namespace ComposeLowering

namespace Decoy

/-- Records the implementation signature of one decoy. -/
def recordOne (ctx : LowerContext) (m : Module) (d : DeclId) : Except LowerError Module := do
  let impl ← implementationFor ctx m d
  match m.publicSignature ctx.platform impl with
  | none => throw (.unsupportedSignature (← liftFault (m.dumpSignature impl)))
  | some sig =>
    let parts := sig.toParts
    return m.modifyDecl d fun x =>
      { x with annotations := x.annotations.map fun
          | .decoy t _ => .decoy t parts
          | a => a }

/-- Records the signatures of all reachable exported decoys. Returns the module and the number
recorded. -/
def recordModule (ctx : LowerContext) (m : Module) : Except LowerError (Module × Nat) :=
  m.reachableDecls.foldlM (fun (m, n) d =>
    if (m.decl d).isDecoy && m.isExported d then do
      return (← recordOne ctx m d, n + 1)
    else pure (m, n)) (m, 0)

end Decoy

end ComposeLowering
