import ComposeLowering.Document
import ComposeLowering.Ir.Dump
import ComposeLowering.Link.Mangle
import ComposeLowering.Lowering.Context
import ComposeLowering.Lowering.Decoy.Rules
import ComposeLowering.Lowering.Pipeline

/-!
# Reports

A report is a document that describes part of a module: an expression, a parameter, a
declaration with its link data, a container, or the whole state with its text dump. Types are
written as text with type parameters by name; values, declarations and containers by index.
Integers that may exceed the range of a double (long constants, signature hashes and masks)
are written as decimal strings, and floating-point constants in their shortest form.
-/

namespace ComposeLowering

namespace Report

open Document (ofEntries)

/-- A natural number. -/
def nat (n : Nat) : Document := .int n

/-- A list of natural numbers. -/
def nats (ns : List Nat) : Document := .seq (ns.map nat)

/-- An optional value, `null` when absent. -/
def opt {α : Type} (f : α → Document) : Option α → Document
  | some x => f x
  | none => .null

/-- A constant: `"null"` or a one-entry map from its kind to its value. -/
def const : Const → Document
  | .null => .str "null"
  | .bool b => ofEntries [("bool", .bool b)]
  | .byte v => ofEntries [("byte", .int v.toInt)]
  | .short v => ofEntries [("short", .int v.toInt)]
  | .int v => ofEntries [("int", .int v.toInt)]
  | .long v => ofEntries [("long", .str (toString v.toInt))]
  | .float bits => ofEntries [("float", .str (Decimal.Notation.constant.write .binary32 bits.toNat))]
  | .double bits => ofEntries [("double", .str (Decimal.Notation.constant.write .binary64 bits.toNat))]
  | .char c => ofEntries [("char", .str (String.singleton c))]
  | .string s => ofEntries [("string", .str s)]

/-- A call target. -/
def target : CallTarget → Document
  | .decl d => ofEntries [("decl", nat d)]
  | .invoke arity => ofEntries [("invoke", nat arity)]
  | .decoy => ofEntries [("intrinsic", .str "decoy")]

/-- An expression: its kind `k`, its type `ty`, and the fields of its kind. -/
def expr (m : Module) (e : Expr) : Document :=
  let node (k : String) (fields : List (String × Document)) : Document :=
    ofEntries (("k", .str k) :: ("ty", .str (m.renderTy e.ty)) :: fields)
  match e with
  | .const c _ => node "const" [("v", const c)]
  | .get v _ => node "get" [("v", nat v)]
  | .set v x _ => node "set" [("v", nat v), ("e", expr m x)]
  | .letVal v x _ => node "let" [("v", nat v), ("e", expr m x)]
  | .block xs _ => node "block" [("s", .seq (xs.attach.map fun ⟨x, _⟩ => expr m x))]
  | .ite c a b _ =>
    node "if" [("c", expr m c), ("t", expr m a), ("e", match b with
      | some y => expr m y
      | none => .null)]
  | .call tgt d x ta args cc _ =>
    node "call" [("target", target tgt),
      ("dr", match d with
        | some y => expr m y
        | none => .null),
      ("er", match x with
        | some y => expr m y
        | none => .null),
      ("ta", .seq (ta.map fun t => .str (m.renderTy t))),
      ("args", .seq (args.attach.map fun
        | ⟨some a, _⟩ => expr m a
        | ⟨none, _⟩ => .null)),
      ("cc", .bool cc)]
  | .ret r x _ => node "return" [("target", nat r), ("e", expr m x)]
  | .fn d _ => node "fn" [("decl", nat d)]
  | .composite o xs _ =>
    node "composite" [("origin", .str (if o = .defaultValue then "default" else "statements")),
      ("s", .seq (xs.attach.map fun ⟨x, _⟩ => expr m x))]
  | .vararg xs _ => node "vararg" [("s", .seq (xs.attach.map fun ⟨x, _⟩ => expr m x))]
  | .inlineNew x _ => node "inline_new" [("e", expr m x)]
  | .maskBit v bit _ => node "mask_bit" [("v", nat v), ("bit", nat bit)]
  termination_by sizeOf e
  decreasing_by
    all_goals first
      | (have h := List.sizeOf_lt_of_mem ‹_›; simp at *; omega)
      | (simp; omega)

/-- The name of a parameter origin. -/
def ParamOrigin.name : ParamOrigin → String
  | .defined => "Defined"
  | .receiver => "Receiver"
  | .composer => "Composer"
  | .changed => "Changed"
  | .defaultMask => "DefaultMask"

/-- A parameter or receiver. -/
def param (m : Module) (p : Param) : Document :=
  ofEntries [("value", nat p.value), ("name", .str p.name), ("ty", .str (m.renderTy p.ty)),
    ("default", opt (expr m) p.default), ("vararg", opt (fun t => .str (m.renderTy t)) p.vararg),
    ("crossinline", .bool p.crossinline), ("noinline", .bool p.noinline),
    ("assignable", .bool p.assignable), ("origin", .str (ParamOrigin.name p.origin))]

/-- A declaration kind: a name, or a one-entry map for an accessor with its property. -/
def kind : DeclKind → Document
  | .function => .str "function"
  | .getter p => ofEntries [("getter", .str p)]
  | .setter p => ofEntries [("setter", .str p)]
  | .constructor => .str "constructor"
  | .externalSource => .str "external"

/-- The name of a declaration origin. -/
def DeclOrigin.name : DeclOrigin → String
  | .defined => "Defined"
  | .lambda => "LocalFunctionForLambda"
  | .external => "External"

/-- The name of a visibility. -/
def Visibility.name : Visibility → String
  | .«public» => "Public"
  | .«protected» => "Protected"
  | .internal => "Internal"
  | .«private» => "Private"
  | .«local» => "Local"

/-- The name of a modality. -/
def Modality.name : Modality → String
  | .final => "Final"
  | .«open» => "Open"
  | .abstract => "Abstract"

/-- A parent: `"detached"` or a one-entry map to a container or declaration. -/
def parent : Parent → Document
  | .detached => .str "detached"
  | .container c => ofEntries [("container", nat c)]
  | .decl d => ofEntries [("decl", nat d)]

/-- An annotation. -/
def annotationItem : Annotation → Document
  | .composable => .str "composable"
  | .decoy t sig =>
    ofEntries [("decoy", ofEntries [("target", .str t), ("signature", .seq (sig.map .str))])]
  | .decoyImpl n => ofEntries [("decoy_impl", .str n)]
  | .linkName n => ofEntries [("link_name", .str n)]
  | .other n => ofEntries [("other", .str n)]

/-- A linkage signature; the hash and the mask as decimal strings. -/
def signature (s : IdSignature) : Document :=
  ofEntries [("package", .str s.package), ("declaration", .str s.declaration),
    ("id", opt (fun i => .str (toString i)) s.id), ("mask", .str (toString s.mask))]

/-- A declaration with its link data for a platform. -/
def decl (m : Module) (platform : Platform) (id : DeclId) : Document :=
  let d := m.decl id
  ofEntries [("id", nat id), ("name", .str d.name), ("kind", kind d.kind),
    ("origin", .str (DeclOrigin.name d.origin)), ("visibility", .str (Visibility.name d.visibility)),
    ("modality", .str (Modality.name d.modality)), ("inline", .bool d.isInline),
    ("expect", .bool d.isExpect), ("external", .bool d.isExternal), ("parent", parent d.parent),
    ("type_params", .seq (d.typeParams.map fun p => .str p.name)),
    ("dispatch_receiver", opt (param m) d.dispatch),
    ("extension_receiver", opt (param m) d.extension),
    ("params", .seq (d.params.map (param m))), ("returns", .str (m.renderTy d.returns)),
    ("overrides", nats d.overrides), ("annotations", .seq (d.annotations.map annotationItem)),
    ("inline_argument", opt (fun t => .str (m.renderTy t)) d.inlineArgument),
    ("body", opt (expr m) d.body), ("mangled", .str (m.mangle platform id)),
    ("exported", .bool (m.isExported id)),
    ("signature", opt signature (m.publicSignature platform id)),
    ("composable", .bool (m.isComposable id)), ("remapped", .bool (Decoy.remapped m id))]

/-- A container with its members and classes. -/
def container (m : Module) (id : ContainerId) : Document :=
  let c := m.container id
  let (k, name) := match c.kind with
    | .file p => ("file", p)
    | .cls n => ("class", n)
  ofEntries [("id", nat id), ("kind", .str k), ("name", .str name), ("parent", opt nat c.parent),
    ("members", nats c.members), ("classes", nats c.classes)]

/-- The containers in order. -/
def containers (m : Module) : Document := .seq (m.containersInOrder.map (container m))

/-- The state of a module: its dump, its containers, and its reachable declarations. The dump
fails on a value index out of range. -/
def state (m : Module) (platform : Platform) : Except Fault Document := do
  let dump ← m.dump
  return ofEntries [("dump", .str dump), ("containers", containers m),
    ("decls", .seq (m.reachableDecls.map (decl m platform)))]

/-- The counts of a lowering run. -/
def stats (s : LowerStats) : Document :=
  ofEntries [("decoys_created", nat s.decoysCreated),
    ("decoy_calls_substituted", nat s.decoyCallsSubstituted),
    ("declarations_rewritten", nat s.declarationsLowered),
    ("calls_rewritten", nat s.callsLowered), ("signatures_recorded", nat s.signaturesRecorded)]

end Report

end ComposeLowering
