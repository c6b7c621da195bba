import ComposeLowering.Fault

/-!
# Entropy

A generator makes its choices by reading bytes from a finite input. A draw from the integers
`lo..=hi` reads one byte for each byte of the offset `hi - lo` (at most the width of the
integer type drawn), takes them big-endian, and reduces them modulo the number of choices; a
draw with a single choice reads nothing, and an empty range is a fault. When the input runs
out, the bytes read so far count, so every draw succeeds: an exhausted input always yields the
low end. A coin reads one byte and shows its lowest bit, `false` once the input is exhausted.

The generator's seeded inputs come from a linear congruential sequence: 4096 bytes, each the
bits 33 to 40 of the next state.
-/

namespace ComposeLowering

namespace Fuzz

/-- The input bytes not yet read. -/
structure Entropy where
  bytes : List UInt8
  deriving Inhabited

namespace Entropy

/-- Reads the big-endian bytes of an offset below `delta + 1`: one byte per byte of `delta`,
at most `width` bytes, fewer when the input ends. The value read and the rest. -/
def gather (delta : Nat) : Nat → Nat → List UInt8 → Nat → Nat × List UInt8
  | 0, _, bs, acc => (acc, bs)
  | width + 1, consumed, bs, acc =>
    if delta >>> (8 * consumed) = 0 then (acc, bs)
    else match bs with
      | [] => (acc, [])
      | b :: rest => gather delta width (consumed + 1) rest (acc * 256 + b.toNat)

/-- Draws an integer from `lo..=hi` for an integer type of `width` bytes. -/
def draw (e : Entropy) (lo hi width : Nat) : Except Fault (Nat × Entropy) :=
  if hi < lo then .error .emptyRange
  else if hi = lo then .ok (lo, e)
  else
    let delta := hi - lo
    let (raw, rest) := gather delta width 0 e.bytes 0
    .ok (lo + raw % (delta + 1), ⟨rest⟩)

/-- Decides with chance `n / d`: draws from `1..=d` and compares with `n`. -/
def chance (e : Entropy) (n d width : Nat) : Except Fault (Bool × Entropy) := do
  let (x, e) ← e.draw 1 d width
  return (decide (x ≤ n), e)

/-- Reads one byte and shows its lowest bit. -/
def coin (e : Entropy) : Bool × Entropy :=
  match e.bytes with
  | [] => (false, e)
  | b :: rest => (b % 2 = 1, ⟨rest⟩)

end Entropy

/-- The next state of the seed sequence. -/
def seedStep (state : UInt64) : UInt64 := state * 6364136223846793005 + 1

/-- The 4096 bytes derived from a seed. -/
def seedBytes (seed : UInt64) : List UInt8 :=
  ((List.range 4096).foldl (fun (acc : List UInt8 × UInt64) _ =>
    let state := seedStep acc.2
    ((state >>> 33).toUInt8 :: acc.1, state)) ([], seed)).1.reverse

/-- The value of a hexadecimal digit. -/
def hexDigit? (c : Char) : Option Nat :=
  if '0' ≤ c ∧ c ≤ '9' then some (c.toNat - '0'.toNat)
  else if 'a' ≤ c ∧ c ≤ 'f' then some (c.toNat - 'a'.toNat + 10)
  else if 'A' ≤ c ∧ c ≤ 'F' then some (c.toNat - 'A'.toNat + 10)
  else none

/-- Why a text does not spell bytes. -/
inductive HexError where
  /-- The text has an odd number of bytes. -/
  | oddLength
  /-- A pair of bytes is not a byte value in hexadecimal. -/
  | badDigits
  /-- A pair of bytes ends inside a character. -/
  | fault (f : Fault)
  deriving Inhabited

/-- The byte a pair of ASCII characters spells in hexadecimal: two digits, or a plus sign and
one digit. -/
def hexPair? (a b : Char) : Option UInt8 :=
  if a = '+' then (hexDigit? b).map Nat.toUInt8
  else do
    let hi ← hexDigit? a
    let lo ← hexDigit? b
    return (hi * 16 + lo).toUInt8

/-- The bytes spelled by the characters `cs`, which start at byte `off` of the text, read in
pairs of bytes from the start. A pair that ends inside a character is a fault, and one that is
a single two-byte character spells nothing. -/
def hexPairs : List Char → Nat → Except HexError (List UInt8)
  | [], _ => .ok []
  | a :: rest, off =>
    if a.utf8Size = 1 then
      match rest with
      | [] => .error .oddLength
      | b :: rest' =>
        if b.utf8Size = 1 then
          match hexPair? a b with
          | some v => do return v :: (← hexPairs rest' (off + 2))
          | none => .error .badDigits
        else .error (.fault (.splitChar (off + 2) b (off + 1) (off + 1 + b.utf8Size)))
    else if a.utf8Size = 2 then .error .badDigits
    else .error (.fault (.splitChar (off + 2) a off (off + a.utf8Size)))

/-- The bytes a hexadecimal text spells, two digits each; the text must have an even number of
bytes. -/
def bytesOfHex (s : String) : Except HexError (List UInt8) :=
  if s.utf8ByteSize % 2 = 1 then .error .oddLength else hexPairs s.toList 0

end Fuzz

end ComposeLowering
