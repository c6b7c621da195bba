import ComposeLowering.Ty.Basic

/-!
# Expressions of the lowering IR

Declarations, containers, local values and type parameters live in arenas of a module and are
referred to by their index. An expression is a tree whose every node carries its type; it
refers to declarations (call targets, return targets, nested functions) and to values only by
index, so a declaration's body never contains another declaration: a lambda or local function
is a separate declaration that the body names with `fn`.

The traversal order of children is fixed once here and used by every pass: a call visits its
dispatch receiver, its extension receiver, then its arguments; a conditional its condition,
then branch and else branch. Nested declarations are not entered by `children`.
-/

namespace ComposeLowering

/-- Index of a declaration in a module. -/
abbrev DeclId := Nat
/-- Index of a file or class in a module. -/
abbrev ContainerId := Nat
/-- Index of a local value (parameter, receiver or `let`) in a module. -/
abbrev ValueId := Nat
/-- Index of a type parameter in a module. -/
abbrev TypeParamId := Nat

/-- A literal constant. Floats are kept as their bit patterns. -/
inductive Const where
  | null
  | bool (b : Bool)
  | byte (v : Int8)
  | short (v : Int16)
  | int (v : Int32)
  | long (v : Int64)
  | float (bits : UInt32)
  | double (bits : UInt64)
  | char (c : Char)
  | string (s : String)
  deriving DecidableEq, Repr, Inhabited

/-- What a call invokes: a declaration, the `invoke` of a function value with the given
number of arguments, or the intrinsic that stands in the body of a decoy. -/
inductive CallTarget where
  | decl (id : DeclId)
  | invoke (arity : Nat)
  | decoy
  deriving DecidableEq, Repr, Inhabited

/-- Whether a composite stands for an omitted argument's default or is a statement group. -/
inductive CompositeOrigin where
  | defaultValue
  | statements
  deriving DecidableEq, Repr, Inhabited

/-- A typed expression tree. The last field of every node is its type. -/
inductive Expr where
  | const (c : Const) (ty : Ty)
  | get (v : ValueId) (ty : Ty)
  | set (v : ValueId) (e : Expr) (ty : Ty)
  | letVal (v : ValueId) (init : Expr) (ty : Ty)
  | block (stmts : List Expr) (ty : Ty)
  | ite (cond thenE : Expr) (elseE : Option Expr) (ty : Ty)
  /-- A call; `composable` marks a call already given its composer arguments. -/
  | call (target : CallTarget) (dispatch extension : Option Expr) (typeArgs : List Ty)
      (args : List (Option Expr)) (composable : Bool) (ty : Ty)
  | ret (target : DeclId) (value : Expr) (ty : Ty)
  /-- A lambda or local function, by its declaration. -/
  | fn (decl : DeclId) (ty : Ty)
  | composite (origin : CompositeOrigin) (stmts : List Expr) (ty : Ty)
  | vararg (elems : List Expr) (ty : Ty)
  | inlineNew (inner : Expr) (ty : Ty)
  /-- Tests bit `bit` of the mask word held in `mask`. -/
  | maskBit (mask : ValueId) (bit : Nat) (ty : Ty)
  deriving Inhabited

/-- The parts of a call node, for passes that change calls. -/
structure Call where
  target : CallTarget
  dispatch : Option Expr := none
  extension : Option Expr := none
  typeArgs : List Ty := []
  args : List (Option Expr)
  composable : Bool := false
  deriving Inhabited

namespace Expr

/-- The type of an expression. -/
def ty : Expr → Ty
  | const _ t | get _ t | set _ _ t | letVal _ _ t | block _ t | ite _ _ _ t
  | call _ _ _ _ _ _ t | ret _ _ t | fn _ t | composite _ _ t | vararg _ t | inlineNew _ t
  | maskBit _ _ t => t

/-- The same node with another type. -/
def withTy (e : Expr) (t : Ty) : Expr :=
  match e with
  | const c _ => const c t
  | get v _ => get v t
  | set v x _ => set v x t
  | letVal v x _ => letVal v x t
  | block xs _ => block xs t
  | ite c a b _ => ite c a b t
  | call g d x ta as cc _ => call g d x ta as cc t
  | ret g x _ => ret g x t
  | fn d _ => fn d t
  | composite o xs _ => composite o xs t
  | vararg xs _ => vararg xs t
  | inlineNew x _ => inlineNew x t
  | maskBit v b _ => maskBit v b t

/-- The most nodes one list of expressions can reserve room for: an address space of
`2^63 - 1` bytes holds no more nodes of 40 bytes. -/
def maxListLength : Nat := (Nat.pow 2 63 - 1) / 40

/-- The empty block of type `Unit`, the IR's unit value. -/
def unit : Expr := block [] Ty.unit

/-- An `Int` constant. -/
def intLit (v : Int32) : Expr := const (.int v) Ty.int

/-- A call node from its parts. -/
def ofCall (c : Call) (t : Ty) : Expr :=
  call c.target c.dispatch c.extension c.typeArgs c.args c.composable t

/-- Whether the expression is the placeholder for an omitted argument's default. -/
def isDefaultPlaceholder : Expr → Bool
  | composite .defaultValue _ _ => true
  | _ => false

/-- The direct subexpressions, in traversal order. -/
def children : Expr → List Expr
  | const .. | get .. | fn .. | maskBit .. => []
  | set _ e _ | letVal _ e _ | ret _ e _ | inlineNew e _ => [e]
  | block xs _ | composite _ xs _ | vararg xs _ => xs
  | ite c t e _ => c :: t :: e.toList
  | call _ d x _ as _ _ => d.toList ++ x.toList ++ as.filterMap id

theorem sizeOf_lt_of_mem_children {e c : Expr} (h : c ∈ e.children) : sizeOf c < sizeOf e := by
  cases e with
  | const | get | fn | maskBit => simp [children] at h
  | set _ x _ | letVal _ x _ | ret _ x _ | inlineNew x _ =>
    simp [children] at h; subst h; simp; omega
  | block xs _ | composite _ xs _ | vararg xs _ =>
    simp only [children] at h
    have := List.sizeOf_lt_of_mem h; simp; omega
  | ite c' t e _ =>
    simp only [children, List.mem_cons] at h
    rcases h with rfl | rfl | h
    · simp; omega
    · simp; omega
    · cases e with
      | none => simp at h
      | some x => simp at h; subst h; simp; omega
  | call _ d x _ as _ _ =>
    simp only [children, List.mem_append, List.mem_filterMap, id] at h
    rcases h with (h | h) | ⟨o, ho, rfl⟩
    · cases d with
      | none => simp at h
      | some y => simp at h; subst h; simp; omega
    · cases x with
      | none => simp at h
      | some y => simp at h; subst h; simp; omega
    · have := List.sizeOf_lt_of_mem ho; simp at this ⊢; omega

/-- The declarations of the lambdas and local functions that the expression holds directly,
in pre-order; their own bodies are not entered. -/
def nestedFns (e : Expr) : List DeclId :=
  (match e with
   | fn d _ => [d]
   | _ => []) ++ e.children.attach.flatMap fun ⟨c, _⟩ => c.nestedFns
  termination_by sizeOf e
  decreasing_by exact sizeOf_lt_of_mem_children (by assumption)

/-- Rebuilds a node from its children, each replaced by `f` in traversal order, and its nested
declaration replaced by `g`; everything else, the type included, is kept. -/
def traverseChildren {m : Type → Type} [Monad m] (e : Expr)
    (f : (c : Expr) → c ∈ e.children → m Expr) (g : DeclId → m DeclId) : m Expr :=
  match e with
  | const c t => pure (const c t)
  | get v t => pure (get v t)
  | maskBit v b t => pure (maskBit v b t)
  | fn d t => do return fn (← g d) t
  | set v x t => do return set v (← f x (by simp [children])) t
  | letVal v x t => do return letVal v (← f x (by simp [children])) t
  | ret r x t => do return ret r (← f x (by simp [children])) t
  | inlineNew x t => do return inlineNew (← f x (by simp [children])) t
  | block xs t => do
    return block (← xs.attach.mapM fun ⟨x, h⟩ => f x (by simpa [children] using h)) t
  | composite o xs t => do
    return composite o (← xs.attach.mapM fun ⟨x, h⟩ => f x (by simpa [children] using h)) t
  | vararg xs t => do
    return vararg (← xs.attach.mapM fun ⟨x, h⟩ => f x (by simpa [children] using h)) t
  | ite c a b t => do
    let c' ← f c (by simp [children])
    let a' ← f a (by simp [children])
    let b' ← match hb : b with
      | none => pure none
      | some y => some <$> f y (by simp [children, hb])
    return ite c' a' b' t
  | call tgt d x ta as cc t => do
    let d' ← match hd : d with
      | none => pure none
      | some y => some <$> f y (by simp [children, hd])
    let x' ← match hx : x with
      | none => pure none
      | some y => some <$> f y (by simp [children, hx])
    let as' ← as.attach.mapM fun ⟨o, h⟩ => match ho : o with
      | none => pure none
      | some y => some <$> f y (by
          simp only [children, List.mem_append, List.mem_filterMap, id]
          exact Or.inr ⟨some y, h, rfl⟩)
    return call tgt d' x' ta as' cc t

/-- Rebuilds a node from its children replaced by `f` in traversal order and its nested
declaration replaced by `g`. -/
def mapChildrenM {m : Type → Type} [Monad m] (f : Expr → m Expr) (g : DeclId → m DeclId) (e : Expr) :
    m Expr :=
  e.traverseChildren (fun c _ => f c) g

/-- Rebuilds an expression with every nested declaration replaced by `g`, in traversal order;
nothing else changes. -/
def mapNestedM {m : Type → Type} [Monad m] (g : DeclId → m DeclId) (e : Expr) : m Expr :=
  e.traverseChildren (fun c _ => c.mapNestedM g) g
  termination_by sizeOf e
  decreasing_by exact sizeOf_lt_of_mem_children (by assumption)

end Expr

end ComposeLowering
