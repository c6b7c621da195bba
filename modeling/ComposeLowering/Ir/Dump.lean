import ComposeLowering.Ir.Module
import ComposeLowering.Ty.Render
import ComposeLowering.Text.Quoted
import ComposeLowering.Decimal.Written
import ComposeLowering.Fault

/-!
# Written form of modules

The text of a module lists its containers in order, each under a comment line, with one line
per member: the member's signature and, if it has one, its body. Blocks open a line per
statement, indented four spaces per level; every other construct is written inline. Lambdas and
local functions are written in place as `{ params -> body }`.

Names of local values are looked up in the module's value arena; an index past its end is a
fault, raised where the value is first written.
-/

namespace ComposeLowering

namespace Module

/-- A type with its parameters written by declared name. -/
def renderTy (m : Module) (t : Ty) : String := t.render m.typeParamName

/-- The name of a local value. -/
def valueName (m : Module) (v : ValueId) : Except Fault String :=
  match m.values[v]? with
  | some n => .ok n
  | none => .error (.indexOutOfBounds m.values.size v)

end Module

/-- The written form of a constant: integers in decimal, `L` after a long, `f` after a float,
floats in their shortest form, characters and strings quoted. -/
def Const.write : Const → String
  | .null => "null"
  | .bool b => if b then "true" else "false"
  | .byte v => toString v.toInt
  | .short v => toString v.toInt
  | .int v => toString v.toInt
  | .long v => toString v.toInt ++ "L"
  | .float bits => Decimal.Notation.constant.write .binary32 bits.toNat ++ "f"
  | .double bits => Decimal.Notation.constant.write .binary64 bits.toNat
  | .char c => Text.quoteChar c
  | .string s => Text.quoteString s

/-- Writes an annotation followed by a space. -/
def Annotation.write : Annotation → String
  | .composable => "@Composable "
  | .decoy t sig => "@Decoy(" ++ Text.quoteString t ++ ", " ++ Text.quoteList sig ++ ") "
  | .decoyImpl n => "@DecoyImplementation(" ++ Text.quoteString n ++ ") "
  | .linkName n => "@LinkName(" ++ Text.quoteString n ++ ") "
  | .other n => "@" ++ n ++ " "

/-- The keyword of a declaration kind. -/
def DeclKind.keyword : DeclKind → String
  | .function | .externalSource => "fun "
  | .getter _ => "get "
  | .setter _ => "set "
  | .constructor => "constructor "

namespace Module

/-- Four spaces per level. -/
def indent (level : Nat) : String := String.join (List.replicate level "    ")

/-- The name written for a call target. -/
def targetName (m : Module) : CallTarget → String
  | .decl d => m.declName d
  | .invoke arity => s!"invoke/{arity}"
  | .decoy => "decoy"

/-- Writes an expression at an indentation level, writing nested declarations with
`nested`. -/
def writeExprWith (m : Module) (nested : DeclId → Nat → Except Fault String) (level : Nat)
    (e : Expr) : Except Fault String :=
  match e with
  | .const c _ => pure c.write
  | .get v _ => m.valueName v
  | .set v x _ => do return (← m.valueName v) ++ " = " ++ (← m.writeExprWith nested level x)
  | .letVal v x _ => do return "val " ++ (← m.valueName v) ++ " = " ++ (← m.writeExprWith nested level x)
  | .block xs _ => do
    let lines ← xs.attach.mapM fun ⟨x, _⟩ => do
      return indent (level + 1) ++ (← m.writeExprWith nested (level + 1) x) ++ "\n"
    return "\x7b\n" ++ String.join lines ++ indent level ++ "\x7d"
  | .ite c a b _ => do
    let cs ← m.writeExprWith nested level c
    let as ← m.writeExprWith nested level a
    let bs ← match b with
      | some y => do
        let ys ← m.writeExprWith nested level y
        pure (" else " ++ ys)
      | none => pure ""
    return "if (" ++ cs ++ ") " ++ as ++ bs
  | .call tgt d x _ args _ _ => do
    let recv ← match d, x with
      | some r, _ => do
        let rs ← m.writeExprWith nested level r
        pure (rs ++ ".")
      | none, some r => do
        let rs ← m.writeExprWith nested level r
        pure (rs ++ ".")
      | none, none => pure ""
    let argTexts ← args.attach.mapM fun
      | ⟨some a, _⟩ => m.writeExprWith nested level a
      | ⟨none, _⟩ => pure "_"
    return recv ++ m.targetName tgt ++ "(" ++ ", ".intercalate argTexts ++ ")"
  | .ret r x _ => do return "return@" ++ m.declName r ++ " " ++ (← m.writeExprWith nested level x)
  | .fn d _ => nested d level
  | .composite o xs _ => do
    let parts ← xs.attach.mapM fun ⟨x, _⟩ => m.writeExprWith nested level x
    return (if o = .defaultValue then "default " else "") ++ "; ".intercalate parts
  | .vararg xs _ => do
    let parts ← xs.attach.mapM fun ⟨x, _⟩ => m.writeExprWith nested level x
    return "vararg(" ++ ", ".intercalate parts ++ ")"
  | .inlineNew x t => do return m.renderTy t ++ "(" ++ (← m.writeExprWith nested level x) ++ ")"
  | .maskBit v bit _ => do return (← m.valueName v) ++ " and 0b1 shl " ++ toString bit ++ " != 0"
  termination_by sizeOf e
  decreasing_by
    all_goals first
      | (have h := List.sizeOf_lt_of_mem ‹_›; simp at *; omega)
      | (simp; omega)

/-- Writes an expression, with lambdas and local functions written in place down to the given
depth of nesting. -/
def writeExprAt (m : Module) : Nat → Nat → Expr → Except Fault String
  | 0, _, _ => .error .recursionLimit
  | fuel + 1, level, e => m.writeExprWith (fun d lvl => do
      let dd := m.decl d
      let ps := dd.params.map (·.name)
      let head := if ps.isEmpty then "" else ", ".intercalate ps ++ " -> "
      let body ← match dd.body with
        | some b => m.writeExprAt fuel lvl b
        | none => pure "..."
      return "\x7b " ++ head ++ body ++ " \x7d") level e

/-- Writes an expression at level zero. -/
def dumpExpr (m : Module) (e : Expr) : Except Fault String := m.writeExprAt (m.decls.size + 1) 0 e

/-- Writes a parameter as `name: Type`, with ` = default` when it has one. -/
def dumpParam (m : Module) (p : Param) : Except Fault String := do
  let head := p.name ++ ": " ++ m.renderTy p.ty
  match p.default with
  | some e => return head ++ " = " ++ (← m.dumpExpr e)
  | none => return head

/-- Writes a declaration's signature: annotations, modifiers, kind, type parameters, extension
receiver type, name, parameters and return type. -/
def dumpSignature (m : Module) (id : DeclId) : Except Fault String := do
  let d := m.decl id
  let params ← d.params.mapM m.dumpParam
  let tps := if d.typeParams.isEmpty then ""
    else "<" ++ ", ".intercalate (d.typeParams.map (·.name)) ++ "> "
  let ext := match d.extension with
    | some r => m.renderTy r.ty ++ "."
    | none => ""
  return String.join (d.annotations.map Annotation.write) ++ (if d.isInline then "inline " else "") ++
    (if d.isExpect then "expect " else "") ++ DeclKind.keyword d.kind ++ tps ++ ext ++ d.name ++
    "(" ++ ", ".intercalate params ++ "): " ++ m.renderTy d.returns

/-- Writes a declaration: its signature and, after a space, its body. -/
def dumpDecl (m : Module) (id : DeclId) : Except Fault String := do
  let sig ← m.dumpSignature id
  match (m.decl id).body with
  | some b => return sig ++ " " ++ (← m.dumpExpr b)
  | none => return sig

/-- The comment line that opens a container. -/
def containerHeader (m : Module) (c : ContainerId) : String :=
  match (m.container c).kind with
  | .file p => "// file " ++ (if p.isEmpty then "<root>" else p) ++ "\n"
  | .cls _ => "// class " ++ ".".intercalate (m.classPath c) ++ "\n"

/-- Writes the whole module. -/
def dump (m : Module) : Except Fault String := do
  let parts ← m.containersInOrder.mapM fun c => do
    let lines ← (m.container c).members.mapM fun d => do return (← m.dumpDecl d) ++ "\n"
    return m.containerHeader c ++ String.join lines
  return String.join parts

end Module

end ComposeLowering
