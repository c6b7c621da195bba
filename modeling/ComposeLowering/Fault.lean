import ComposeLowering.Text.Quoted

/-!
# Faults

A fault is a broken internal invariant that stops the program outright, as opposed to an
error that a caller is expected to handle. Each fault has a fixed message.
-/

namespace ComposeLowering

/-- A broken internal invariant. -/
inductive Fault where
  /-- An index past the end of an arena of `len` entries. -/
  | indexOutOfBounds (len index : Nat)
  /-- A word count whose operands exceed the 64-bit range. -/
  | addOverflow
  /-- More than 32 flags packed into one mask word. -/
  | maskTooWide
  /-- A walk that did not end within the module's size: a cycle among nested declarations or
  overrides. -/
  | recursionLimit
  /-- A draw from an empty range of integers. -/
  | emptyRange
  /-- A reservation of more argument slots than an address space holds. -/
  | capacityOverflow
  /-- A text cut at byte `index`, inside the character `c` that spans the bytes from `start`
  up to `stop`. -/
  | splitChar (index : Nat) (c : Char) (start stop : Nat)
  deriving DecidableEq, Repr, Inhabited

/-- The message of a fault. -/
def Fault.message : Fault → String
  | .indexOutOfBounds len index => s!"index out of bounds: the len is {len} but the index is {index}"
  | .addOverflow => "attempt to add with overflow"
  | .maskTooWide => "assertion failed: bits.len() <= BITS_PER_WORD"
  | .recursionLimit => "recursion limit exceeded"
  | .emptyRange => "`arbitrary::Unstructured::int_in_range` requires a non-empty range"
  | .capacityOverflow => "capacity overflow"
  | .splitChar index c start stop =>
    "end byte index " ++ toString index ++ " is not a char boundary; it is inside " ++
      Text.quoteChar c ++ " (bytes " ++ toString start ++ ".." ++ toString stop ++ " of string)"

end ComposeLowering
