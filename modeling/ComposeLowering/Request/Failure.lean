import ComposeLowering.Document
import ComposeLowering.Options.Read
import ComposeLowering.Lowering.Error
import ComposeLowering.Spec.Build

/-!
# Failed requests

A request fails for one of five causes: it is malformed, its options do not read, lowering
reports an error, an internal invariant breaks (a fault), or the generator runs out of input.
The answer to a failed request names the cause's kind and gives its text; a lowering error is
named by its own kind, and a fault inside lowering counts as a fault.
-/

namespace ComposeLowering

namespace Request

/-- Why a request failed. -/
inductive Failure where
  /-- A request that does not describe what its operation needs. -/
  | malformed (text : String)
  | options (e : ReadError)
  | lowering (e : LowerError)
  | fault (f : Fault)
  /-- The generator's input ended or did not fit. -/
  | generator (text : String)
  deriving Inhabited

namespace Failure

/-- A lowering error as a failure; a fault stays a fault. -/
def ofLower : LowerError → Failure
  | .fault f => .fault f
  | e => .lowering e

/-- A build error as a failure. -/
def ofBuild (e : Spec.BuildError) : Failure := .malformed e.message

/-- The name of a failure's kind. -/
def kind : Failure → String
  | .malformed _ => "driver"
  | .options _ => "options"
  | .lowering e => match e with
    | .slotCountMismatch .. => "SlotCountMismatch"
    | .alreadyLowered _ => "AlreadyRewritten"
    | .missingDecoyImplementation .. => "MissingDecoyImplementation"
    | .malformedDecoySignature .. => "MalformedDecoySignature"
    | .unsupportedSignature _ => "UnsupportedSignature"
    | .fault _ => "panic"
  | .fault _ => "panic"
  | .generator _ => "arbitrary"

/-- The text of a failure. -/
def text : Failure → String
  | .malformed s => s
  | .options e => e.message
  | .lowering e => e.message
  | .fault f => f.message
  | .generator s => s

/-- The fields that describe a failure in an answer. -/
def fields (f : Failure) : List (String × Document) :=
  [("error", .str f.kind), ("message", .str f.text)]

end Failure

/-- A step of answering a request. -/
abbrev AnswerM := Except Failure

/-- Runs a reading step. -/
def reading {α : Type} (x : Except String α) : AnswerM α := x.mapError .malformed

/-- Runs a step that may fault. -/
def faulting {α : Type} (x : Except Fault α) : AnswerM α := x.mapError .fault

/-- Runs a lowering step. -/
def lowering {α : Type} (x : Except LowerError α) : AnswerM α := x.mapError Failure.ofLower

/-- Runs an options step. -/
def withOptions {α : Type} (x : Except ReadError α) : AnswerM α := x.mapError .options

end Request

end ComposeLowering
