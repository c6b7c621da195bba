import ComposeLowering.Ty.Interner

/-!
# Written form of types

A type is written in the surface syntax of the language being compiled: `@Composable ` in front
of a composable type, class arguments in angle brackets, function types as `(A, B) -> R`, and a
trailing `?` for a nullable type, with a nullable function type wrapped in parentheses first so
that the mark applies to the whole arrow. Type parameters are written by a caller-supplied
naming function, because different outputs name them differently (by declared name, or by
position for linkage). An interned type is written the same way, level by level through the
handles of its parts.
-/

namespace ComposeLowering

namespace Ty

/-- Writes the nullable and composable marks around the text of a shape: a nullable function
type is put in parentheses before its `?`. -/
def decorate (isFunction nullable composable : Bool) (body : String) : String :=
  let core :=
    if nullable then
      if isFunction then "(" ++ body ++ ")?" else body ++ "?"
    else body
  (if composable then "@Composable " else "") ++ core

mutual

/-- Writes a type, naming each type parameter with `paramName`. -/
def render (paramName : Nat → String) : Ty → String
  | ⟨.base b, nullable, composable⟩ => decorate false nullable composable b.name
  | ⟨.cls name args _, nullable, composable⟩ =>
    decorate false nullable composable
      (if args.isEmpty then name else name ++ "<" ++ ", ".intercalate (renderAll paramName args) ++ ">")
  | ⟨.fn ps r, nullable, composable⟩ =>
    decorate true nullable composable
      ("(" ++ ", ".intercalate (renderAll paramName ps) ++ ") -> " ++ render paramName r)
  | ⟨.param p, nullable, composable⟩ => decorate false nullable composable (paramName p)

/-- Writes each type of a list. -/
def renderAll (paramName : Nat → String) : List Ty → List String
  | [] => []
  | a :: rest => render paramName a :: renderAll paramName rest

end

/-- The list form writes each type. -/
theorem renderAll_eq_map (paramName : Nat → String) (ts : List Ty) :
    renderAll paramName ts = ts.map (render paramName) := by
  induction ts with
  | nil => rfl
  | cons a rest ih => simp [renderAll, ih]

end Ty

namespace TypeInterner

/-- Writes a stored type from the texts of its parts. -/
def renderStep (paramName : Nat → String) (d : TyData) (part : Nat → Except Fault String) :
    Except Fault String := do
  let body ← match d.shape with
    | .base b => pure b.name
    | .cls name args _ =>
      if args.isEmpty then pure name
      else do
        let args' ← args.mapM part
        pure (name ++ "<" ++ ", ".intercalate args' ++ ">")
    | .fn ps r => do
      let ps' ← ps.mapM part
      let r' ← part r
      pure ("(" ++ ", ".intercalate ps' ++ ") -> " ++ r')
    | .param p => pure (paramName p)
  let isFunction := match d.shape with
    | .fn .. => true
    | _ => false
  pure (Ty.decorate isFunction d.nullable d.composable body)

/-- Writes the type of a handle, naming each type parameter with `paramName`. -/
def render (paramName : Nat → String) (t : TypeInterner) (h : Nat) : Except Fault String :=
  t.foldParts (renderStep paramName) t.types.size h

end TypeInterner

end ComposeLowering
