import ComposeLowering.Options
import ComposeLowering.Document

/-!
# Reading options from a document

Options are read from a map whose known keys are `platform`, `decoys` and `default_prologue`,
taken in key order; other keys are ignored and missing ones keep their defaults. A sequence
gives the three fields by position instead, and may be shorter but not longer; its elements
are read before its length is checked. A platform is
its lowercase name, or a map with that name as its only key and `null` as value. `decoys` is a
boolean or `null`, `default_prologue` a boolean. The first value of the wrong shape is the
error.
-/

namespace ComposeLowering

/-- Why a document does not describe options. -/
inductive ReadError where
  /-- A value of the wrong shape: what was found, what was expected. -/
  | invalidType (found expected : String)
  /-- A value of the right shape that is not allowed. -/
  | invalidValue (found expected : String)
  | unknownVariant (name : String)
  /-- A sequence with more elements than fields. -/
  | invalidLength (length : Nat)
  deriving DecidableEq, Repr, Inhabited

/-- The text of a reading error. -/
def ReadError.message : ReadError → String
  | .invalidType found expected => "invalid type: " ++ found ++ ", expected " ++ expected
  | .invalidValue found expected => "invalid value: " ++ found ++ ", expected " ++ expected
  | .unknownVariant name => "unknown variant `" ++ name ++ "`, expected one of `jvm`, `js`, `native`"
  | .invalidLength n => "invalid length " ++ toString n ++ ", expected fewer elements in array"

namespace Platform

/-- Reads a platform: its name, or a map from its name to `null`. -/
def read : Document → Except ReadError Platform
  | .str s => match ofName? s with
    | some p => .ok p
    | none => .error (.unknownVariant s)
  | .map [(k, v)] => match ofName? k with
    | some p => match v with
      | .null => .ok p
      | other => .error (.invalidType other.unexpected "unit")
    | none => .error (.unknownVariant k)
  | .map _ => .error (.invalidValue "map" "map with a single key")
  | other => .error (.invalidType other.unexpected "string or map")

end Platform

/-- Reads a boolean. -/
def Document.readBool : Document → Except ReadError Bool
  | .bool b => .ok b
  | other => .error (.invalidType other.unexpected "a boolean")

/-- Reads an optional boolean: `null` is none. -/
def Document.readOptBool : Document → Except ReadError (Option Bool)
  | .null => .ok none
  | other => some <$> other.readBool

namespace LowerOptions

/-- Sets the field named `key` from a document; unknown keys change nothing. -/
def readField (o : LowerOptions) (key : String) (v : Document) : Except ReadError LowerOptions :=
  match key with
  | "platform" => do return { o with platform := ← Platform.read v }
  | "decoys" => do return { o with decoys := ← v.readOptBool }
  | "default_prologue" => do return { o with defaultPrologue := ← v.readBool }
  | _ => .ok o

/-- The field names in the order a sequence gives them. -/
def fieldOrder : List String := ["platform", "decoys", "default_prologue"]

/-- Reads options from a document. -/
def read : Document → Except ReadError LowerOptions
  | .map entries => entries.foldlM (fun o (k, v) => o.readField k v) {}
  | .seq items => do
    let o ← (fieldOrder.zip items).foldlM (fun o (k, v) => o.readField k v) {}
    if items.length > fieldOrder.length then .error (.invalidLength items.length) else .ok o
  | other => .error (.invalidType other.unexpected "struct LowerOptions")

end LowerOptions

end ComposeLowering
