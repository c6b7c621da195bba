import ComposeLowering.Request.Decode
import ComposeLowering.Request.Failure
import ComposeLowering.Report
import ComposeLowering.Ir.Copy
import ComposeLowering.Lowering.Pipeline

/-!
# Sessions

A session applies a list of steps to one module: building units into it, running lowering or
one of its passes, querying declarations, and keeping a symbol table filled from the module.
Labels bound by one step stay visible to later ones. A step may replace the session's options
from that step on.

Each step answers its result together with the dump and containers of the module after it. The
first step that fails answers its failure, and the session stops there; a session whose steps
all succeed ends with the state of the module. A fault, a step whose name is no text, or steps
that are no list fail the whole session instead.
-/

namespace ComposeLowering

namespace Request

open Document (ofEntries)

/-- The name of the module a request builds: its `name` when that is text, `app` otherwise. The
name shows in no answer. -/
def moduleName (d : Document) : String :=
  match d.field? "name" with
  | some (.str s) => s
  | _ => "app"

/-- The state of a session: the builder with its module and labels, the options, and the
symbol table. -/
structure Session where
  builder : Spec.Builder
  options : LowerOptions
  table : SymbolTable := {}
  deriving Inhabited

/-- A session step. -/
abbrev SessionM := StateT Session AnswerM

namespace Session

/-- The module. -/
def module : SessionM Module := return (← get).builder.module

/-- Replaces the module. -/
def setModule (m : Module) : SessionM Unit :=
  modify fun s => { s with builder := { s.builder with module := m } }

/-- The context of a lowering run: the options and the session's symbol table. -/
def context : SessionM LowerContext := do
  let s ← get
  return { options := s.options, resolver := s.table }

/-- Lifts an answering step. -/
def lift {α : Type} (x : AnswerM α) : SessionM α := fun s => x.map (·, s)

/-- Runs a build step on the session's builder. -/
def build {α : Type} (x : Spec.BuildM α) : SessionM α := do
  let s ← get
  match x.run s.builder with
  | .ok (a, b) => set { s with builder := b }; return a
  | .error e => throw (.ofBuild e)

/-- Runs a reading step. -/
def read {α : Type} (x : Spec.ReadM α) : SessionM α := lift (reading x)

/-- Resolves the declaration reference under a key. -/
def declField (d : Document) (key : String) : SessionM DeclId :=
  build (Spec.resolveDecl ((d.get? key).getD .null))

/-- Runs a composer transformer step with the session's options. -/
def composer {α : Type} (x : Composer.M α) (st : ComposerState) : SessionM (α × ComposerState) := do
  lift (lowering ((x.run (← get).options).run st))

/-- The answer to a lowering of listed declarations: lowers them with one transformer, each
reference resolved just before its declaration is lowered, reporting for each what it became,
and binds the label to the last result. -/
def lowerDeclsStep (d : Document) : SessionM Document := do
  let refs ← read (Spec.array d "decls")
  let m ← module
  let fuel := Composer.fuelFor m
  let (results, st) ← refs.foldlM (fun (acc : List (DeclId × Document) × ComposerState) r => do
    let (done, st) := acc
    setModule st.module
    let i ← build (Spec.resolveDecl r)
    let (o, st) ← composer (Composer.lowerDecl fuel i) st
    let doc := ofEntries [("in", Report.nat i), ("out", Report.nat o),
      ("is_rewritten", .bool (st.lowered.contains o)),
      ("rewritten_of_in", Report.opt Report.nat (st.clones.lookup i))]
    return (done ++ [(o, doc)], st)) ([], { module := m })
  setModule st.module
  if let some l ← read (Spec.optText d "label") then
    if let some (last, _) := results.getLast? then build (Spec.bindDecl l last)
  return ofEntries [("results", .seq (results.map (·.2))), ("declarations", Report.nat st.declarations),
    ("calls", Report.nat st.calls)]

/-- The answer to a lowering of one call: lowers the prepared declarations, then one call built with
only global labels in scope into the module they left, passing the given composer value; one
transformer serves them all. -/
def lowerCallStep (d : Document) : SessionM Document := do
  let prep ← read (Spec.array d "prepare")
  let m ← module
  let fuel := Composer.fuelFor m
  let st ← prep.foldlM (fun st r => do
    setModule st.module
    let i ← build (Spec.resolveDecl r)
    return (← composer (Composer.lowerDecl fuel i) st).2) ({ module := m } : ComposerState)
  setModule st.module
  let composerValue ← match d.field? "composer" with
    | some v => build (Spec.resolveValue v)
    | none => pure 0
  let e ← build do
    let b ← get
    set { b with scopes := [], building := [] }
    let e ← Spec.readExpr ((d.get? "call").getD .null)
    modify fun b' => { b' with scopes := b.scopes, building := b.building }
    return e
  let call ← match e with
    | .call tgt dr er ta args cc _ => pure (Call.mk tgt dr er ta args cc)
    | _ => throw (.malformed "rewrite_call needs a call")
  let st := { st with module := ← module }
  let (c, st) ← composer (Composer.lowerCall (Composer.fuelFor st.module) composerValue call) st
  setModule st.module
  let ex := Expr.ofCall c Ty.unit
  let m ← module
  return ofEntries [("call", Report.expr m ex), ("dump", .str (← lift (faulting (m.dumpExpr ex)))),
    ("calls", Report.nat st.calls)]

/-- The platform a step names, or the session's. -/
def platformField (d : Document) : SessionM Platform := do
  match d.get? "platform" with
  | some p => lift (withOptions (Platform.read p))
  | none => return (← get).options.platform

/-- Runs one step by name and gives its result. -/
def runStep (name : String) (d : Document) : SessionM Document := do
  match name with
  | "unit" =>
    let clear ← read (Spec.flag d "clear_files")
    let ids ← build (Spec.buildUnit ((d.get? "module").getD (.map [])) clear)
    return Report.nats ids
  | "lower" =>
    let (m, stats) ← lift (lowering (lowerModule (← context) (← module)))
    setModule m
    return Report.stats stats
  | "create_decoys" =>
    let (m, n) ← lift (lowering (Decoy.splitModule (← module)))
    setModule m
    return ofEntries [("created", Report.nat n)]
  | "substitute" =>
    let (m, n) ← lift (lowering (Decoy.retargetModule (← context) (← module)))
    setModule m
    return ofEntries [("substituted", Report.nat n)]
  | "composer" =>
    let st ← lift (lowering (Composer.run (← get).options (← module)))
    setModule st.module
    return ofEntries [("declarations", Report.nat st.declarations), ("calls", Report.nat st.calls)]
  | "record" =>
    let (m, n) ← lift (lowering (Decoy.recordModule (← context) (← module)))
    setModule m
    return ofEntries [("recorded", Report.nat n)]
  | "rewrite" => lowerDeclsStep d
  | "rewrite_call" => lowerCallStep d
  | "deep_copy" =>
    let i ← declField d "decl"
    let (m, c) ← lift (faulting ((← module).deepCopy i))
    setModule m
    if let some l ← read (Spec.optText d "label") then build (Spec.bindDecl l c)
    return ofEntries [("copy", Report.nat c), ("decl", Report.decl m (← get).options.platform c)]
  | "implementation_for" =>
    let i ← declField d "decl"
    return Report.nat (← lift (lowering (Decoy.implementationFor (← context) (← module) i)))
  | "index" =>
    let s ← get
    let table := s.table.indexModule s.builder.module s.options.platform
    set { s with table }
    return ofEntries [("symbols", Report.nat table.size)]
  | "resolve" =>
    let sig ← read (signature ((d.get? "signature").getD (.map [])))
    return Report.opt Report.nat ((← get).table.resolve sig)
  | "signature" =>
    let i ← declField d "decl"
    let p ← platformField d
    let m ← module
    return ofEntries [("mangled", .str (m.mangle p i)), ("exported", .bool (m.isExported i)),
      ("signature", Report.opt Report.signature (m.publicSignature p i)),
      ("dump", .str (← lift (faulting (m.dumpSignature i))))]
  | "patch_parents" =>
    setModule (← module).patchParents
    return .null
  | "reachable" => return Report.nats (← module).reachableDecls
  | "nested" =>
    let i ← declField d "decl"
    return Report.nats ((← module).nestedDecls i)
  | "container_of" =>
    let i ← declField d "decl"
    return Report.opt Report.nat ((← module).containerOf i)
  | "decl" =>
    let i ← declField d "decl"
    return Report.decl (← module) (← get).options.platform i
  | "zero_value" =>
    let t ← build (Spec.readTy ((d.field? "ty").getD (.str "Unit")))
    let m ← module
    let e := t.zeroValue
    return ofEntries [("expr", Report.expr m e), ("dump", .str (← lift (faulting (m.dumpExpr e))))]
  | "label" =>
    let i ← declField d "decl"
    build (Spec.bindDecl (← read (Spec.text d "name" "")) i)
    return Report.nat i
  | "state" =>
    let s ← get
    lift (faulting (Report.state s.builder.module s.options.platform))
  | other => throw (.malformed ("unknown step `" ++ other ++ "`"))

/-- Runs one named step: its options first, then the step. -/
def step (name : String) (d : Document) : SessionM Document := do
  if let some o := d.get? "options" then
    let opts ← lift (withOptions (LowerOptions.read o))
    modify fun s => { s with options := opts }
  runStep name d

/-- The dump and containers of the module after a step. -/
def after (m : Module) : AnswerM Document := do
  return ofEntries [("dump", .str (← faulting m.dump)), ("containers", Report.containers m)]

/-- Runs steps until one fails, collecting their entries; the session after the last step that
succeeded, and whether all succeeded. A step name that is no text, or a fault while the module
is shown after a step, fails the whole session. -/
def runSteps (s : Session) : List Document → AnswerM (List Document × Session × Bool)
  | [] => pure ([], s, true)
  | d :: rest => do
    let name ← reading (Spec.text d "step" "")
    match (step name d).run s with
    | .ok (result, s') =>
      let entry := ofEntries [("step", .str name), ("result", result), ("after", ← after s'.builder.module)]
      let (entries, s'', ok) ← runSteps s' rest
      return (entry :: entries, s'', ok)
    | .error f => return ([ofEntries (("step", .str name) :: f.fields)], s, false)

end Session

/-- The answer to a session: every step's entry and, when all succeed, the final state. -/
def answerSession (d : Document) : AnswerM Document := do
  let options ← withOptions (LowerOptions.read ((d.get? "options").getD (.map [])))
  let name := moduleName d
  let steps ← reading (Spec.array d "steps")
  let (entries, s, ok) ← Session.runSteps { builder := { module := { name } }, options } steps
  if ok then
    return ofEntries [("steps", .seq entries),
      ("final", ← faulting (Report.state s.builder.module s.options.platform))]
  else return ofEntries [("steps", .seq entries)]

end Request

end ComposeLowering
