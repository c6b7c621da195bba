/-!
# Types of the lowering IR

A type is its shape (a built-in base type, a class applied to arguments, a function type or a
type parameter) together with two flags: whether it admits `null` and whether it is
composable. Types are compared structurally: two types are the same exactly when their shapes
and flags agree, so flag updates such as `withNullable` return the type itself when the flag is
already set.

An *inline class* is a class that wraps one underlying value; its underlying type is part of
the shape but is never looked into by the structural queries below (composability, parameter
substitution), only by zero values.
-/

namespace ComposeLowering

/-- The built-in types with no parts. -/
inductive Base where
  | unit | nothing | any
  | bool | byte | short | int | long | float | double | char
  | string | composer
  deriving DecidableEq, Repr, Inhabited

namespace Base

/-- The eight value types: booleans, integers of four widths, two float widths, characters. -/
def isPrimitive : Base → Bool
  | .bool | .byte | .short | .int | .long | .float | .double | .char => true
  | _ => false

/-- The name a base type is written with. -/
def name : Base → String
  | .unit => "Unit"
  | .nothing => "Nothing"
  | .any => "Any"
  | .bool => "Boolean"
  | .byte => "Byte"
  | .short => "Short"
  | .int => "Int"
  | .long => "Long"
  | .float => "Float"
  | .double => "Double"
  | .char => "Char"
  | .string => "String"
  | .composer => "Composer"

end Base

/-- The shape of a type over the type `α` of its parts. -/
inductive Shape (α : Type) where
  | base (b : Base)
  /-- A class with type arguments; `underlying` is set for an inline class. -/
  | cls (name : String) (args : List α) (underlying : Option α)
  | fn (params : List α) (ret : α)
  /-- A type parameter, by its index in the module's table of type parameters. -/
  | param (id : Nat)
  deriving Repr, Inhabited

/-- Applies a step to the parts of a shape in order: class arguments, then the underlying type
of an inline class; function parameters, then the result. -/
def Shape.mapM {m : Type → Type} [Monad m] {α β : Type} (f : α → m β) : Shape α → m (Shape β)
  | .base b => pure (.base b)
  | .cls name args u => do
    let args' ← args.mapM f
    let u' ← u.mapM f
    pure (.cls name args' u')
  | .fn ps r => do
    let ps' ← ps.mapM f
    let r' ← f r
    pure (.fn ps' r')
  | .param p => pure (.param p)

/-- A type: a shape with the nullable and composable flags. -/
structure Ty where
  shape : Shape Ty
  nullable : Bool := false
  composable : Bool := false
  deriving Inhabited

namespace Ty

mutual

/-- Structural equality of types. -/
def decEq : (a b : Ty) → Decidable (a = b)
  | ⟨s₁, n₁, c₁⟩, ⟨s₂, n₂, c₂⟩ =>
    match decShape s₁ s₂ with
    | isTrue h =>
      if hn : n₁ = n₂ then
        if hc : c₁ = c₂ then isTrue (by subst h hn hc; rfl)
        else isFalse (by intro e; cases e; exact hc rfl)
      else isFalse (by intro e; cases e; exact hn rfl)
    | isFalse h => isFalse (by intro e; cases e; exact h rfl)

/-- Structural equality of shapes. -/
def decShape : (a b : Shape Ty) → Decidable (a = b)
  | .base x, .base y =>
    if h : x = y then isTrue (h ▸ rfl) else isFalse (by intro e; cases e; exact h rfl)
  | .param x, .param y =>
    if h : x = y then isTrue (h ▸ rfl) else isFalse (by intro e; cases e; exact h rfl)
  | .cls n₁ a₁ u₁, .cls n₂ a₂ u₂ =>
    if hn : n₁ = n₂ then
      match decList a₁ a₂, decOption u₁ u₂ with
      | isTrue ha, isTrue hu => isTrue (by subst hn ha hu; rfl)
      | isFalse ha, _ => isFalse (by intro e; cases e; exact ha rfl)
      | _, isFalse hu => isFalse (by intro e; cases e; exact hu rfl)
    else isFalse (by intro e; cases e; exact hn rfl)
  | .fn p₁ r₁, .fn p₂ r₂ =>
    match decList p₁ p₂, decEq r₁ r₂ with
    | isTrue hp, isTrue hr => isTrue (by subst hp hr; rfl)
    | isFalse hp, _ => isFalse (by intro e; cases e; exact hp rfl)
    | _, isFalse hr => isFalse (by intro e; cases e; exact hr rfl)
  | .base _, .cls .. | .base _, .fn .. | .base _, .param _ => isFalse (by intro e; cases e)
  | .cls .., .base _ | .cls .., .fn .. | .cls .., .param _ => isFalse (by intro e; cases e)
  | .fn .., .base _ | .fn .., .cls .. | .fn .., .param _ => isFalse (by intro e; cases e)
  | .param _, .base _ | .param _, .cls .. | .param _, .fn .. => isFalse (by intro e; cases e)

/-- Structural equality of type lists. -/
def decList : (a b : List Ty) → Decidable (a = b)
  | [], [] => isTrue rfl
  | [], _ :: _ => isFalse (by intro e; cases e)
  | _ :: _, [] => isFalse (by intro e; cases e)
  | x :: xs, y :: ys =>
    match decEq x y, decList xs ys with
    | isTrue h₁, isTrue h₂ => isTrue (by subst h₁ h₂; rfl)
    | isFalse h₁, _ => isFalse (by intro e; cases e; exact h₁ rfl)
    | _, isFalse h₂ => isFalse (by intro e; cases e; exact h₂ rfl)

/-- Structural equality of optional types. -/
def decOption : (a b : Option Ty) → Decidable (a = b)
  | none, none => isTrue rfl
  | none, some _ => isFalse (by intro e; cases e)
  | some _, none => isFalse (by intro e; cases e)
  | some x, some y =>
    match decEq x y with
    | isTrue h => isTrue (h ▸ rfl)
    | isFalse h => isFalse (by intro e; cases e; exact h rfl)

end

instance : DecidableEq Ty := decEq

/-- The plain type of a base kind. -/
def ofBase (b : Base) : Ty := ⟨.base b, false, false⟩

/-- `Unit`. -/
def unit : Ty := ofBase .unit
/-- `Nothing`, the type of expressions that do not complete. -/
def nothing : Ty := ofBase .nothing
/-- `Any`. -/
def any : Ty := ofBase .any
/-- `Boolean`. -/
def boolean : Ty := ofBase .bool
/-- `Int`. -/
def int : Ty := ofBase .int
/-- `Long`. -/
def long : Ty := ofBase .long
/-- `String`. -/
def string : Ty := ofBase .string
/-- `Composer`. -/
def composer : Ty := ofBase .composer

/-- A plain class type. -/
def cls (name : String) (args : List Ty) : Ty := ⟨.cls name args none, false, false⟩

/-- A plain inline class wrapping `underlying`. -/
def inlineClass (name : String) (underlying : Ty) : Ty := ⟨.cls name [] (some underlying), false, false⟩

/-- A plain function type. -/
def function (params : List Ty) (ret : Ty) : Ty := ⟨.fn params ret, false, false⟩

/-- A plain type parameter. -/
def param (id : Nat) : Ty := ⟨.param id, false, false⟩

/-- The type with the nullable flag set; the type itself when it is already set. -/
def withNullable (t : Ty) : Ty := { t with nullable := true }

/-- The type with the composable flag set; the type itself when it is already set. -/
def withComposable (t : Ty) : Ty := { t with composable := true }

/-- A value type that cannot be `null`. -/
def isPrimitive (t : Ty) : Bool :=
  !t.nullable && match t.shape with
    | .base b => b.isPrimitive
    | _ => false

/-- A class that wraps an underlying value, nullable or not. -/
def isInlineClass (t : Ty) : Bool :=
  match t.shape with
  | .cls _ _ (some _) => true
  | _ => false

/-- A function type, nullable or not. -/
def isFunction (t : Ty) : Bool :=
  match t.shape with
  | .fn .. => true
  | _ => false

/-- The base kind of a type, if its shape is a base type. -/
def base? (t : Ty) : Option Base :=
  match t.shape with
  | .base b => some b
  | _ => none

mutual

/-- Whether the type or any class argument, function parameter or result inside it, at any
depth, is composable. The underlying type of an inline class is not looked into. -/
def hasComposable : Ty → Bool
  | ⟨.cls _ args _, _, c⟩ => c || anyHasComposable args
  | ⟨.fn ps r, _, c⟩ => c || anyHasComposable ps || hasComposable r
  | ⟨.base _, _, c⟩ | ⟨.param _, _, c⟩ => c

/-- Whether some type of a list has a composable part. -/
def anyHasComposable : List Ty → Bool
  | [] => false
  | a :: rest => hasComposable a || anyHasComposable rest

end

/-- The list form asks `hasComposable` of each type. -/
theorem anyHasComposable_eq_any (ts : List Ty) : anyHasComposable ts = ts.any hasComposable := by
  induction ts with
  | nil => rfl
  | cons a rest ih => simp [anyHasComposable, ih]

mutual

/-- Substitutes type parameters: each parameter `p` with `σ p = some q` becomes `q`, through
class arguments and function parameters and results, keeping every flag. The underlying type of
an inline class is kept as it is. -/
def remap (σ : Nat → Option Nat) : Ty → Ty
  | ⟨.param p, n, c⟩ => ⟨.param ((σ p).getD p), n, c⟩
  | ⟨.cls name args u, n, c⟩ => ⟨.cls name (remapAll σ args) u, n, c⟩
  | ⟨.fn ps r, n, c⟩ => ⟨.fn (remapAll σ ps) (remap σ r), n, c⟩
  | ⟨.base b, n, c⟩ => ⟨.base b, n, c⟩

/-- Substitutes type parameters in each type of a list. -/
def remapAll (σ : Nat → Option Nat) : List Ty → List Ty
  | [] => []
  | a :: rest => remap σ a :: remapAll σ rest

end

/-- The list form substitutes in each type. -/
theorem remapAll_eq_map (σ : Nat → Option Nat) (ts : List Ty) : remapAll σ ts = ts.map (remap σ) := by
  induction ts with
  | nil => rfl
  | cons a rest ih => simp [remapAll, ih]

end Ty

end ComposeLowering
