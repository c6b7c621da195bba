import ComposeLowering.Ir.Expr
import ComposeLowering.Ty.Interner

/-!
# Zero values

The zero value of a type stands for an argument that a call leaves out: `null` for a nullable
type, `false`, `0`, `0L`, `0.0f`, `0.0` or the NUL character for a value type, an inline class
wrapping the zero of its underlying type, and `null` for everything else. The expression has the
type it is the zero of.
-/

namespace ComposeLowering

namespace Ty

/-- The zero value of a type. -/
def zeroValue : Ty → Expr
  | t@⟨s, nullable, _⟩ =>
    if nullable then .const .null t
    else match s with
      | .base .bool => .const (.bool false) t
      | .base .byte => .const (.byte 0) t
      | .base .short => .const (.short 0) t
      | .base .int => .const (.int 0) t
      | .base .long => .const (.long 0) t
      | .base .float => .const (.float 0) t
      | .base .double => .const (.double 0) t
      | .base .char => .const (.char '\x00') t
      | .cls _ _ (some u) => .inlineNew u.zeroValue t
      | _ => .const .null t

end Ty

/-- The zero value of the type of a handle. An expression carries its type as a tree, so the
handle's type is read whole. -/
def TypeInterner.zeroValue (t : TypeInterner) (h : Nat) : Except Fault Expr :=
  (t.typeOf h).map Ty.zeroValue

end ComposeLowering
