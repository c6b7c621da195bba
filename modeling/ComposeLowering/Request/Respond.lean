import ComposeLowering.Document.Json
import ComposeLowering.Request.Session
import ComposeLowering.Lowering.Synthetic
import ComposeLowering.Fuzz.Generator
import ComposeLowering.Ty.Interner

/-!
# Answering requests

A request is a JSON object whose `op` names an operation; the answer is a JSON object. Each
request stands alone: it builds a fresh module. The operations compute synthetic parameter
counts and masks, read and write signatures and options, describe types, lower a described
module, and run sessions. A failed request answers its failure's kind and text.
-/

namespace ComposeLowering

namespace Request

open Document (ofEntries)

/-- The answer to `synthetic`: the word counts and parameter count of a declaration shape, and
the parameter names when there are at most 300. -/
def answerSynthetic (d : Document) : AnswerM Document := do
  let real ← reading (Spec.count d "real" 0)
  let receivers ← reading (Spec.count d "receivers" 0)
  let hasDefaults ← reading (Spec.flag d "has_defaults")
  let changed ← faulting (Synthetic.checkedChangedWordCount real receivers)
  let count ← faulting (Synthetic.checkedParamCount real receivers hasDefaults)
  let names := if count ≤ 300 then
      [("names", .seq ((Synthetic.params real receivers hasDefaults).map fun p => .str p.name))]
    else []
  return ofEntries ([("changed_words", Report.nat changed),
    ("default_words", Report.nat (Synthetic.defaultWordCount real)), ("count", Report.nat count)] ++ names)

/-- A flag of a mask: a boolean, or a number, which is set unless it is the integer 0. -/
def maskFlag : Document → Spec.ReadM Bool
  | .bool b => pure b
  | x@(.int _) | x@(.float _) => pure (x.signedWord? != some 0)
  | _ => throw "bits must be booleans"

/-- The answer to `bit_mask`: the mask word of a list of flags. -/
def answerBitMask (d : Document) : AnswerM Document := do
  let bits ← reading ((← reading (Spec.array d "bits")).mapM maskFlag)
  let mask ← faulting (Synthetic.bitMask bits)
  return ofEntries [("mask", .int mask.toInt)]

/-- The answer to `signature_parts`: the signature read from parts and its parts again, and the
parts of a given signature. -/
def answerSignatureParts (d : Document) : AnswerM Document := do
  let fromParts ← if d.has "parts" then do
      let parts ← reading ((← reading (Spec.array d "parts")).mapM fun
        | .str p => pure p
        | _ => throw "parts must be strings")
      let parsed := IdSignature.ofParts? parts
      pure [("parsed", Report.opt Report.signature parsed),
        ("round_trip", Report.opt (fun s => .seq (s.toParts.map .str)) parsed)]
    else pure []
  let ofSignature ← match d.field? "signature" with
    | some s => do
      let sig ← reading (signature s)
      pure [("parts", .seq (sig.toParts.map .str))]
    | none => pure []
  return ofEntries (fromParts ++ ofSignature)

/-- Options as a document. -/
def optionsDocument (o : LowerOptions) : Document :=
  ofEntries [("platform", .str o.platform.name), ("decoys", Report.opt .bool o.decoys),
    ("default_prologue", .bool o.defaultPrologue)]

/-- The answer to `options`: the options read back, and what they decide about decoys. -/
def answerOptions (d : Document) : AnswerM Document := do
  let o ← withOptions (LowerOptions.read ((d.field? "options").getD (.map [])))
  return ofEntries [("options", optionsDocument o), ("decoys_enabled", .bool o.decoysEnabled),
    ("decoys_by_default", .bool o.platform.decoysByDefault), ("platform", .str o.platform.name)]

/-- Runs a build step on a fresh builder. -/
def building {α : Type} (b : Spec.Builder) (x : Spec.BuildM α) : AnswerM (α × Spec.Builder) :=
  (x.run b).mapError Failure.ofBuild

/-- The answer to `type`: how a type is written, its flags, its nullable and composable
variants, its zero value, and optionally a substitution of type parameters and a comparison
with a second type. -/
def answerType (d : Document) : AnswerM Document := do
  let names ← reading ((← reading (Spec.array d "type_params")).mapM fun
    | .str n => pure n
    | _ => throw "type param names are strings")
  let fresh : Spec.Builder := { module := { name := "app" } }
  let (_, b) ← building fresh (names.forM fun n => do
    let p ← Spec.alloc (·.newTypeParam n)
    Spec.bindTypeParam n p)
  let (t, b) ← building b (Spec.readTy ((d.field? "ty").getD (.str "Unit")))
  let m := b.module
  let positional (x : Ty) : String := x.render fun i => "#" ++ toString i
  let zero := t.zeroValue
  let pairs? ← match d.get? "remap" with
    | some (.map entries) => do
      let (pairs, _) ← building b (entries.mapM fun (k, v) => do
        let target ← match v with
          | .str s => pure s
          | _ => pure ""
        let look (l : String) : Spec.BuildM TypeParamId := do
          match (← get).lookupTypeParam [] l with
          | some p => pure p
          | none => throw (.unknownTypeParam l)
        return (← look k, ← look target))
      pure (some pairs)
    | _ => pure none
  let ty2? ← match d.field? "ty2" with
    | some t2 => do
      let (u, _) ← building b (Spec.readTy t2)
      pure (some u)
    | none => pure none
  -- handles are compared as the interner hands them out
  let (nullableSame, composableSame, remappedSame, same?) ←
    faulting (TypeInterner.compareHandles t (pairs?.getD []) ty2?)
  let remapped := match pairs? with
    | some pairs =>
      let r := t.remap fun p => pairs.lookup p
      [("remapped", .str (m.renderTy r)), ("remapped_positional", .str (positional r)),
        ("remapped_same", .bool remappedSame)]
    | none => []
  let same := match same? with
    | some s => [("same", .bool s)]
    | none => []
  return ofEntries ([("render", .str (m.renderTy t)), ("positional", .str (positional t)),
    ("nullable", .bool t.nullable), ("composable", .bool t.composable),
    ("primitive", .bool t.isPrimitive), ("inline_class", .bool t.isInlineClass),
    ("function", .bool t.isFunction), ("has_composable", .bool t.hasComposable),
    ("ctx_has_composable", .bool t.hasComposable),
    ("make_nullable", .str (m.renderTy t.withNullable)),
    ("make_nullable_same", .bool nullableSame),
    ("make_composable", .str (m.renderTy t.withComposable)),
    ("make_composable_same", .bool composableSame),
    ("zero", .str (← faulting (m.dumpExpr zero))), ("zero_expr", Report.expr m zero)] ++
    remapped ++ same)

/-- The answer to `lower`: builds the described module, lowers it, and reports the counts and
the state, with the dump before lowering on request when there is any. -/
def answerLower (d : Document) : AnswerM Document := do
  let options ← withOptions (LowerOptions.read ((d.get? "options").getD (.map [])))
  let (_, b) ← building { module := { name := moduleName d } }
    (Spec.buildUnit ((d.get? "module").getD (.map [])) false)
  let wantBefore ← reading (Spec.flag d "before")
  let before ← if wantBefore then do
      let text ← faulting b.module.dump
      pure (if text.isEmpty then [] else [("before", .str text)])
    else pure []
  let ctx := LowerContext.ofOptions options
  let (m, stats) ← lowering (lowerModule ctx b.module)
  return ofEntries ([("decoys_enabled", .bool options.decoysEnabled), ("stats", Report.stats stats),
    ("state", ← faulting (Report.state m options.platform))] ++ before)

/-- Generation limits: the defaults, with the fields a document gives replaced. -/
def readLimits (d : Document) : Except String Fuzz.Limits := do
  let field (key : String) (dflt : Nat) : Except String Nat := Spec.count d key dflt
  let base : Fuzz.Limits := {}
  return { maxFiles := ← field "max_files" base.maxFiles
           maxClasses := ← field "max_classes" base.maxClasses
           maxFunctions := ← field "max_functions" base.maxFunctions
           maxParams := ← field "max_params" base.maxParams
           maxStatements := ← field "max_statements" base.maxStatements
           maxNesting := ← field "max_nesting" base.maxNesting }

/-- The input bytes of a generation: those of a seed, or those a hexadecimal text spells. -/
def readEntropy (d : Document) : AnswerM (List UInt8) := do
  match ← reading (Spec.optText d "hex") with
  | some h =>
    match Fuzz.bytesOfHex h with
    | .ok bytes => pure bytes
    | .error .oddLength => throw (.malformed "odd hex length")
    | .error .badDigits => throw (.malformed "bad hex")
    | .error (.fault f) => throw (.fault f)
  | none => do
    let seed ← reading (Spec.count d "seed" 0)
    pure (Fuzz.seedBytes seed.toUInt64)

/-- A declaration as a generation reports it: its parameters as `name#value`, its overrides,
its parent and its public signature. -/
def generatedDecl (m : Module) (platform : Platform) (id : DeclId) : Document :=
  let d := m.decl id
  ofEntries [("id", Report.nat id),
    ("params", .seq (d.params.map fun p => .str (p.name ++ "#" ++ toString p.value))),
    ("overrides", Report.nats d.overrides), ("parent", Report.parent d.parent),
    ("signature", Report.opt Report.signature (m.publicSignature platform id))]

/-- The answer to a generation request: generates a module from a seed or from bytes, lowers it, and reports
the dumps before and after, the counts, the containers and the reachable declarations. -/
def answerGenerate (d : Document) : AnswerM Document := do
  let bytes ← readEntropy d
  let limits ← reading (readLimits ((d.get? "config").getD (.map [])))
  let platform ← match d.get? "platform" with
    | some p => withOptions (Platform.read p)
    | none => pure .jvm
  let decoys := match d.field? "decoys" with
    | some (.bool b) => some b
    | _ => none
  let options := match decoys with
    | some b => (LowerOptions.forPlatform platform).withDecoys b
    | none => LowerOptions.forPlatform platform
  let m ← faulting (Fuzz.generate limits bytes)
  let before ← faulting m.dump
  let (m, stats) ← lowering (lowerModule (LowerContext.ofOptions options) m)
  return ofEntries [("before", .str before), ("after", .str (← faulting m.dump)),
    ("stats", Report.stats stats), ("containers", Report.containers m),
    ("decls", .seq (m.reachableDecls.map (generatedDecl m platform)))]

/-- The answer to a request document. -/
def answer (d : Document) : AnswerM Document := do
  match d.get? "op" with
  | some (.str "synthetic") => answerSynthetic d
  | some (.str "bit_mask") => answerBitMask d
  | some (.str "signature_parts") => answerSignatureParts d
  | some (.str "options") => answerOptions d
  | some (.str "type") => answerType d
  | some (.str "lower") => answerLower d
  | some (.str "session") => answerSession d
  | some (.str "smith") => answerGenerate d
  | other =>
    let op := match other with
      | some (.str s) => s
      | _ => ""
    throw (.malformed ("unknown op `" ++ op ++ "`"))

/-- The answer to a request line, as a JSON line. -/
def respond (line : String) : String :=
  let result := match Document.ofJson line with
    | .ok d => answer d
    | .error e => .error (.malformed ("bad json: " ++ e))
  match result with
  | .ok doc => doc.toJson
  | .error f => (ofEntries f.fields).toJson

end Request

end ComposeLowering
