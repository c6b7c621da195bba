/-!
# Lowering options

The target platform decides whether calls are linked through decoys by default: on the JVM a
declaration keeps its name when it gains synthetic parameters, elsewhere a decoy stub keeps the
former signature and forwards to a renamed implementation. The default can be overridden,
and the prologue that assigns default values inside a lowered body can be turned off.
-/

namespace ComposeLowering

/-- A compilation target. -/
inductive Platform where
  | jvm | js | native
  deriving DecidableEq, Repr, Inhabited

namespace Platform

/-- The lowercase name of a platform. -/
def name : Platform → String
  | .jvm => "jvm"
  | .js => "js"
  | .native => "native"

/-- The platform of a lowercase name. -/
def ofName? : String → Option Platform
  | "jvm" => some .jvm
  | "js" => some .js
  | "native" => some .native
  | _ => none

/-- Decoys are used by default everywhere but on the JVM. -/
def decoysByDefault (p : Platform) : Bool := p != .jvm

end Platform

/-- The options of one lowering run. -/
structure LowerOptions where
  platform : Platform := .jvm
  /-- Forces decoys on or off; `none` follows the platform. -/
  decoys : Option Bool := none
  defaultPrologue : Bool := true
  deriving DecidableEq, Repr, Inhabited

namespace LowerOptions

/-- The default options for a platform. -/
def forPlatform (p : Platform) : LowerOptions := { platform := p }

/-- The options with decoys forced on or off. -/
def withDecoys (o : LowerOptions) (enabled : Bool) : LowerOptions := { o with decoys := some enabled }

/-- Whether this run uses decoys. -/
def decoysEnabled (o : LowerOptions) : Bool := o.decoys.getD o.platform.decoysByDefault

end LowerOptions

end ComposeLowering
