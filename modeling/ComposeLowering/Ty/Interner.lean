import Std.Data.HashMap
import ComposeLowering.Ty.Basic
import ComposeLowering.Fault

/-!
# The type interner

The table form of types. Each type is stored once, as its shape over the *handles* of its
parts and its two flags, and a handle is its index in the table. A map from stored data back to
handles makes storing a type that is already there return its handle, so a handle stands for
one type: comparing handles compares types.

The first eight handles hold the common types (`Unit`, `Nothing`, `Any`, `Boolean`, `Int`,
`Long`, `String`, `Composer`), which the rest of the program names by their handle.

Handles are naturals, like the indices of the other arenas. Reading a handle past the table is
a fault; substituting type parameters walks the parts of a type, which are stored before it,
and its walk is bounded by the size of the table. The queries that read a type through its parts
(its tree, whether some part is composable, and in other modules its written form and its zero
value) are one recursion, `foldParts`, given a step for one level and the same bound.
-/

namespace ComposeLowering

deriving instance Hashable for Base
deriving instance DecidableEq, Hashable for Shape

/-- A stored type: its shape over the handles of its parts, and its flags. -/
structure TyData where
  shape : Shape Nat
  nullable : Bool := false
  composable : Bool := false
  deriving DecidableEq, Hashable, Repr, Inhabited

/-- The handles a stored type refers to: class arguments, the underlying type of an inline
class, function parameters and result. -/
def TyData.parts (d : TyData) : List Nat :=
  match d.shape with
  | .base _ | .param _ => []
  | .cls _ args u => args ++ u.toList
  | .fn ps r => ps ++ [r]

/-- The common types, in the order of their handles. -/
def commonKinds : List Base := [.unit, .nothing, .any, .bool, .int, .long, .string, .composer]

/-- The table of stored types and the map from each stored type to its handle. -/
structure TypeInterner where
  cache : Std.HashMap TyData Nat := {}
  types : Array TyData := #[]

namespace TypeInterner

/-- Stores a type, or finds it stored: its handle and the interner after. -/
def store (d : TyData) (t : TypeInterner) : Nat × TypeInterner :=
  match t.cache[d]? with
  | some h => (h, t)
  | none => (t.types.size, { cache := t.cache.insert d t.types.size, types := t.types.push d })

/-- An interner holding the common types at handles `0` to `7`. -/
def new : TypeInterner :=
  commonKinds.foldl (fun t b => (t.store { shape := .base b }).2) {}

/-- A step of work on the interner; it faults only on a handle past the table. -/
abbrev M := StateT TypeInterner (Except Fault)

/-- Interns a type. -/
def intern (d : TyData) : M Nat := modifyGet (store d)

/-- Interns a shape with neither flag. -/
def internKind (s : Shape Nat) : M Nat := intern { shape := s }

/-- The stored type of a handle. -/
def data (h : Nat) : M TyData := do
  let t ← get
  if hh : h < t.types.size then return t.types[h] else throw (.indexOutOfBounds t.types.size h)

def cls (name : String) (args : List Nat) : M Nat := internKind (.cls name args none)

def inlineClass (name : String) (underlying : Nat) : M Nat :=
  internKind (.cls name [] (some underlying))

def function (params : List Nat) (ret : Nat) : M Nat := internKind (.fn params ret)

def typeParam (id : Nat) : M Nat := internKind (.param id)

/-- The type with a flag set, the flag read by `flag` and set by `set`; the handle itself when
the flag is already set. -/
def withFlag (flag : TyData → Bool) (set : TyData → TyData) (h : Nat) : M Nat := do
  let d ← data h
  if flag d then return h
  intern (set d)

/-- The type with the nullable flag set. -/
def makeNullable : Nat → M Nat := withFlag (·.nullable) ({ · with nullable := true })

/-- The type with the composable flag set. -/
def makeComposable : Nat → M Nat := withFlag (·.composable) ({ · with composable := true })

/-- A composable function type. -/
def composableFunction (params : List Nat) (ret : Nat) : M Nat := do
  makeComposable (← function params ret)

/-- Substitutes type parameters by `σ` in a type at most `fuel` parts deep: a parameter with a
substitute is replaced, class arguments and function parameters and results are substituted in
order and the rebuilt type is interned, with its flags and an inline class's underlying type
kept; any other type is kept as it is. -/
def remapAt (σ : List (Nat × Nat)) : Nat → Nat → M Nat
  | 0, _ => throw .recursionLimit
  | fuel + 1, h => do
    let d ← data h
    match d.shape with
    | .param p =>
      match σ.lookup p with
      | some q => intern { d with shape := .param q }
      | none => return h
    | .cls name args u => do
      let args' ← args.mapM (remapAt σ fuel)
      intern { d with shape := .cls name args' u }
    | .fn ps r => do
      let ps' ← ps.mapM (remapAt σ fuel)
      let r' ← remapAt σ fuel r
      intern { d with shape := .fn ps' r' }
    | .base _ => return h

/-- Substitutes type parameters by `σ`; with no substitution, the handle itself. The parts of a
type are stored before it, so the walk is no deeper than the table is long. -/
def remap (σ : List (Nat × Nat)) (h : Nat) : M Nat := do
  if σ.isEmpty then return h
  remapAt σ (← get).types.size h

/-! ## Reading a type through its parts -/

/-- Recursion through the parts of stored types, at most `fuel` parts deep: `step` is given the
stored type of a handle and the recursion itself, to ask of its parts. A handle past the table
is a fault, and so is running out of fuel; the parts of a type are stored before it, so the size
of the table is fuel enough. -/
def foldParts {α : Type} (t : TypeInterner)
    (step : TyData → (Nat → Except Fault α) → Except Fault α) : Nat → Nat → Except Fault α
  | 0, _ => throw .recursionLimit
  | fuel + 1, h =>
    if hh : h < t.types.size then step t.types[h] (t.foldParts step fuel)
    else throw (.indexOutOfBounds t.types.size h)

/-- Rebuilds a stored type from the types of its parts. -/
def typeStep (d : TyData) (part : Nat → Except Fault Ty) : Except Fault Ty := do
  let s ← d.shape.mapM part
  pure ⟨s, d.nullable, d.composable⟩

/-- The type a handle stands for, as a tree. -/
def typeOf (t : TypeInterner) (h : Nat) : Except Fault Ty :=
  t.foldParts typeStep t.types.size h

/-- Whether a stored type is marked, or else a class argument, a function parameter or the
result, asked in that order; the underlying type of an inline class is not looked into. -/
def markStep (marked : TyData → Bool) (d : TyData) (part : Nat → Except Fault Bool) :
    Except Fault Bool :=
  if marked d then pure true
  else match d.shape with
    | .cls _ args _ => args.anyM part
    | .fn ps r => do if ← ps.anyM part then pure true else part r
    | _ => pure false

/-- Whether a type is marked, or a class argument, function parameter or result inside it at
any depth. -/
def hasMarkedPart (marked : TyData → Bool) (t : TypeInterner) (h : Nat) : Except Fault Bool :=
  t.foldParts (markStep marked) t.types.size h

/-- Whether a type or a part of it is composable. The lowering context asks the same of its
oracle, which reads the same flag. -/
def hasComposable (t : TypeInterner) (h : Nat) : Except Fault Bool :=
  t.hasMarkedPart (·.composable) h

/-! ## Interning type trees -/

mutual

/-- Interns a type, its parts first. -/
def internTy : Ty → M Nat
  | ⟨.base b, n, c⟩ => intern { shape := .base b, nullable := n, composable := c }
  | ⟨.param p, n, c⟩ => intern { shape := .param p, nullable := n, composable := c }
  | ⟨.cls name args u, n, c⟩ => do
    let args' ← internAll args
    let u' ← internOpt u
    intern { shape := .cls name args' u', nullable := n, composable := c }
  | ⟨.fn ps r, n, c⟩ => do
    let ps' ← internAll ps
    let r' ← internTy r
    intern { shape := .fn ps' r', nullable := n, composable := c }

/-- Interns each type of a list, in order. -/
def internAll : List Ty → M (List Nat)
  | [] => pure []
  | a :: rest => do
    let h ← internTy a
    let hs ← internAll rest
    pure (h :: hs)

/-- Interns an optional type. -/
def internOpt : Option Ty → M (Option Nat)
  | none => pure none
  | some a => do
    let h ← internTy a
    pure (some h)

end

/-- Interns `t` into a new interner and compares handles: whether setting the nullable flag,
setting the composable flag and substituting type parameters by `σ` each hand back its handle,
and whether `u`, if given, is interned to it. -/
def compareHandles (t : Ty) (σ : List (Nat × Nat)) (u : Option Ty) :
    Except Fault (Bool × Bool × Bool × Option Bool) :=
  let answers : M (Bool × Bool × Bool × Option Bool) := do
    let h ← internTy t
    let n ← makeNullable h
    let c ← makeComposable h
    let r ← remap σ h
    let same ← u.mapM fun u => do
      let h' ← internTy u
      pure (h' == h)
    pure (n == h, c == h, r == h, same)
  answers.run' new

end TypeInterner

end ComposeLowering
