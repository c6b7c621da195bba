import ComposeLowering.Fault

/-!
# Lowering errors

Lowering stops at the first inconsistency it finds: a call whose argument slots do not fit the
lowered callee, a declaration that already carries synthetic parameters, a decoy whose
implementation cannot be found or whose signature is malformed, or an implementation without a
public signature. Each error carries the written form of what it is about. A fault met while
lowering, such as a value index past the end of the module, also ends it.
-/

namespace ComposeLowering

/-- Why lowering stopped. -/
inductive LowerError where
  /-- A call needing `needed` slots against a callee with `available` parameters. -/
  | slotCountMismatch (call : String) (needed available : Nat)
  | alreadyLowered (decl : String)
  | missingDecoyImplementation (decl target : String)
  | malformedDecoySignature (decl : String) (parts : Nat)
  | unsupportedSignature (decl : String)
  | fault (f : Fault)
  deriving DecidableEq, Repr, Inhabited

/-- The text of a lowering error. -/
def LowerError.message : LowerError → String
  | .slotCountMismatch call needed available =>
    "synthetic slot count mismatch at call `" ++ call ++ "`: need " ++ toString needed ++
      " parameters, callee has " ++ toString available
  | .alreadyLowered decl => "declaration already carries synthetic parameters: " ++ decl
  | .missingDecoyImplementation decl target =>
    "could not find decoy implementation `" ++ target ++ "` for " ++ decl
  | .malformedDecoySignature decl parts =>
    "malformed decoy signature on " ++ decl ++ ": expected 4 parts, found " ++ toString parts
  | .unsupportedSignature decl => "decoy implementation has no public signature: " ++ decl
  | .fault f => f.message

/-- Turns a fault into a lowering error. -/
def liftFault {α : Type} : Except Fault α → Except LowerError α
  | .ok a => .ok a
  | .error f => .error (.fault f)

end ComposeLowering
