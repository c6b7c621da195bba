import ComposeLowering.Link.Mangle
import ComposeLowering.Options

/-!
# Lowering context

A lowering run sees its options and a symbol table of declarations from other compilation
units, which resolves decoy signatures that name no class. A declaration is composable when it
carries the composable annotation, a type when its composable flag is set.
-/

namespace ComposeLowering

/-- What a lowering run is given besides the module. -/
structure LowerContext where
  options : LowerOptions := {}
  resolver : SymbolTable := {}
  deriving Inhabited

namespace LowerContext

/-- The context of a run with the given options and an empty symbol table. -/
def ofOptions (o : LowerOptions) : LowerContext := { options := o }

/-- The platform whose mangling and signatures the run uses. -/
def platform (c : LowerContext) : Platform := c.options.platform

end LowerContext

namespace Module

/-- Whether a declaration is composable. -/
def isComposable (m : Module) (d : DeclId) : Bool := (m.decl d).isMarkedComposable

end Module

end ComposeLowering
