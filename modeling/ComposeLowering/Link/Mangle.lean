import Std.Data.HashMap
import ComposeLowering.Ir.Module
import ComposeLowering.Ty.Render
import ComposeLowering.Hash.Blake3
import ComposeLowering.Link.Signature
import ComposeLowering.Options

/-!
# Mangled names and exported signatures

The mangled form of a declaration identifies its shape for linking: the number of type
parameters as `<N>`, the extension receiver's type and a dot, the name, the parameter types
separated by `;` in parentheses (a vararg parameter as `vararg Elem`), and, except on JS, a
colon and the return type. Inside it a type parameter of the declaration itself is written by
its position `#i`, any other by `^Name`.

A declaration is *exported* when it is not local, not private, and hangs below some container.
An exported declaration's public signature has the package of that container, the class path
and name joined by dots, the first eight bytes of the BLAKE3 hash of the mangled form, and the
`expect` flag as mask.

A symbol table maps public signatures to declarations; a later entry for a signature replaces
an earlier one.
-/

namespace ComposeLowering

namespace Module

/-- A type as written in a mangled name of declaration `d`. -/
def renderLinkTy (m : Module) (d : Decl) (t : Ty) : String :=
  t.render fun p => match d.typeParams.findIdx? (·.id == p) with
    | some i => "#" ++ toString i
    | none => "^" ++ m.typeParamName p

/-- The mangled form of a declaration for a platform. -/
def mangle (m : Module) (platform : Platform) (id : DeclId) : String :=
  let d := m.decl id
  let tps := if d.typeParams.isEmpty then "" else "<" ++ toString d.typeParams.length ++ ">"
  let ext := match d.extension with
    | some r => m.renderLinkTy d r.ty ++ "."
    | none => ""
  let ps := d.params.map fun p => match p.vararg with
    | some e => "vararg " ++ m.renderLinkTy d e
    | none => m.renderLinkTy d p.ty
  let ret := if platform = .js then "" else ":" ++ m.renderLinkTy d d.returns
  tps ++ ext ++ d.name ++ "(" ++ ";".intercalate ps ++ ")" ++ ret

/-- Whether a declaration is visible to other compilation units. -/
def isExported (m : Module) (id : DeclId) : Bool :=
  let d := m.decl id
  !d.isLocal && d.visibility != .«private» && d.visibility != .«local» && (m.containerOf id).isSome

/-- The signature under which an exported declaration is linked. -/
def publicSignature (m : Module) (platform : Platform) (id : DeclId) : Option IdSignature :=
  if m.isExported id then
    (m.containerOf id).map fun c =>
      let d := m.decl id
      { package := m.packageOf c
        declaration := ".".intercalate (m.classPath c ++ [d.name])
        id := some (Blake3.hash64 (m.mangle platform id)).toUInt64
        mask := if d.isExpect then IdSignature.maskExpect else 0 }
  else none

end Module

/-- Declarations by public signature. -/
structure SymbolTable where
  symbols : Std.HashMap IdSignature DeclId := {}
  deriving Inhabited

namespace SymbolTable

/-- Enters a declaration under a signature, replacing any earlier entry. -/
def insert (t : SymbolTable) (s : IdSignature) (d : DeclId) : SymbolTable :=
  ⟨t.symbols.insert s d⟩

/-- The declaration entered under a signature. -/
def resolve (t : SymbolTable) (s : IdSignature) : Option DeclId := t.symbols[s]?

/-- The number of signatures entered. -/
def size (t : SymbolTable) : Nat := t.symbols.size

/-- Enters every reachable declaration that has a public signature. -/
def indexModule (t : SymbolTable) (m : Module) (platform : Platform) : SymbolTable :=
  m.reachableDecls.foldl (fun t d =>
    match m.publicSignature platform d with
    | some s => t.insert s d
    | none => t) t

end SymbolTable

end ComposeLowering
