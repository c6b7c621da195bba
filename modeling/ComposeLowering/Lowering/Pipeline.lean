import ComposeLowering.Lowering.Composer
import ComposeLowering.Lowering.Decoy.Split
import ComposeLowering.Lowering.Decoy.Retarget
import ComposeLowering.Lowering.Decoy.Record

/-!
# Lowering a module

With decoys, lowering first splits remapped members into stubs and implementations and
retargets calls from stubs to implementations; then, always, it gives composable declarations
and calls their composer parameters; finally, with decoys, it records the implementations'
signatures in the stubs. The counts of each step are reported.
-/

namespace ComposeLowering

/-- What a lowering run did. -/
structure LowerStats where
  decoysCreated : Nat := 0
  decoyCallsSubstituted : Nat := 0
  declarationsLowered : Nat := 0
  callsLowered : Nat := 0
  signaturesRecorded : Nat := 0
  deriving DecidableEq, Repr, Inhabited

namespace Composer

/-- Runs the composer-parameter lowering over a whole module with a fresh transformer. -/
def run (opts : LowerOptions) (m : Module) : Except LowerError ComposerState := do
  let ((), s) ← (lowerModule.run opts).run { module := m }
  return s

end Composer

/-- Lowers a module. -/
def lowerModule (ctx : LowerContext) (m : Module) : Except LowerError (Module × LowerStats) := do
  let decoys := ctx.options.decoysEnabled
  let (m, created) ← if decoys then Decoy.splitModule m else pure (m, 0)
  let (m, substituted) ← if decoys then Decoy.retargetModule ctx m else pure (m, 0)
  let s ← Composer.run ctx.options m
  let (m, recorded) ← if decoys then Decoy.recordModule ctx s.module else pure (s.module, 0)
  return (m, { decoysCreated := created, decoyCallsSubstituted := substituted,
               declarationsLowered := s.declarations, callsLowered := s.calls,
               signaturesRecorded := recorded })

end ComposeLowering
