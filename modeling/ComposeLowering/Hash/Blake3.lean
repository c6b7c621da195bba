/-!
# The BLAKE3 hash

BLAKE3 splits its input into chunks of 1024 bytes and each chunk into blocks of 64 bytes. A
compression function mixes a block into an eight-word chaining value; the chunks' chaining
values are combined pairwise in a binary tree whose left subtree always holds the largest power
of two of chunks that leaves at least one byte to the right. The root compression is marked so
that its output is the hash. Words are read and written little-endian.

Only the unkeyed hash with its first output block is needed here, which gives up to 64 bytes of
digest.
-/

namespace ComposeLowering

namespace Blake3

/-- The initial chaining value, shared with SHA-256. -/
def iv : Vector UInt32 8 :=
  #v[0x6A09E667, 0xBB67AE85, 0x3C6EF372, 0xA54FF53A, 0x510E527F, 0x9B05688C, 0x1F83D9AB, 0x5BE0CD19]

/-- The order in which message words are reused from one round to the next. -/
def permutation : Vector (Fin 16) 16 := #v[2, 6, 3, 10, 7, 0, 4, 13, 1, 11, 12, 5, 9, 14, 15, 8]

/-- Domain flag of the first block of a chunk. -/
def chunkStart : UInt32 := 1
/-- Domain flag of the last block of a chunk. -/
def chunkEnd : UInt32 := 2
/-- Domain flag of a parent node. -/
def parent : UInt32 := 4
/-- Domain flag of the root compression. -/
def root : UInt32 := 8

/-- Rotates a word right by `n` bits. -/
def rotr (x : UInt32) (n : UInt32) : UInt32 := (x >>> n) ||| (x <<< (32 - n))

/-- The quarter-round on state words `a b c d` with message words `x y`. -/
def g (s : Vector UInt32 16) (a b c d : Fin 16) (x y : UInt32) : Vector UInt32 16 :=
  let va := s[a] + s[b] + x
  let vd := rotr (s[d] ^^^ va) 16
  let vc := s[c] + vd
  let vb := rotr (s[b] ^^^ vc) 12
  let va := va + vb + y
  let vd := rotr (vd ^^^ va) 8
  let vc := vc + vd
  let vb := rotr (vb ^^^ vc) 7
  ((s.set a va).set b vb |>.set c vc).set d vd

/-- One round: the four columns, then the four diagonals. -/
def round (s : Vector UInt32 16) (m : Vector UInt32 16) : Vector UInt32 16 :=
  let s := g s 0 4 8 12 m[0] m[1]
  let s := g s 1 5 9 13 m[2] m[3]
  let s := g s 2 6 10 14 m[4] m[5]
  let s := g s 3 7 11 15 m[6] m[7]
  let s := g s 0 5 10 15 m[8] m[9]
  let s := g s 1 6 11 12 m[10] m[11]
  let s := g s 2 7 8 13 m[12] m[13]
  g s 3 4 9 14 m[14] m[15]

/-- Reorders the message words for the next round. -/
def permute (m : Vector UInt32 16) : Vector UInt32 16 := Vector.ofFn fun i => m[permutation[i]]

/-- Seven rounds with the message permuted between them. -/
def rounds (s m : Vector UInt32 16) : Nat → Vector UInt32 16
  | 0 => s
  | 1 => round s m
  | n + 2 => rounds (round s m) (permute m) (n + 1)

/-- The compression function: mixes a block into a chaining value, with the block counter, the
number of bytes used in the block and the domain flags. -/
def compress (cv : Vector UInt32 8) (block : Vector UInt32 16) (counter : Nat) (len : Nat)
    (flags : UInt32) : Vector UInt32 16 :=
  let s : Vector UInt32 16 := cv ++ #v[iv[0], iv[1], iv[2], iv[3],
    (counter % Nat.pow 2 32).toUInt32, (counter / Nat.pow 2 32 % Nat.pow 2 32).toUInt32, len.toUInt32, flags]
  let s := rounds s block 7
  Vector.ofFn fun i =>
    if h : i.val < 8 then s[i] ^^^ s[i.val + 8]
    else s[i] ^^^ cv[i.val - 8]

/-- The first eight words of a compression output. -/
def chainingValue (out : Vector UInt32 16) : Vector UInt32 8 := Vector.ofFn fun i => out[i.val]

/-- A word read little-endian from four bytes, missing bytes counting as zero. -/
def wordOf (bytes : List UInt8) : UInt32 :=
  (bytes.take 4).foldr (fun b acc => (acc <<< 8) ||| b.toUInt32) 0

/-- The sixteen words of a block, zero-padded. -/
def blockWords (bytes : List UInt8) : Vector UInt32 16 :=
  Vector.ofFn fun i => wordOf (bytes.drop (4 * i.val))

/-- The bytes of a word, little-endian. -/
def wordBytes (w : UInt32) : List UInt8 :=
  [w.toUInt8, (w >>> 8).toUInt8, (w >>> 16).toUInt8, (w >>> 24).toUInt8]

/-- A compression not yet performed, kept so that the root can add its flag. -/
structure Pending where
  cv : Vector UInt32 8
  block : Vector UInt32 16
  counter : Nat
  len : Nat
  flags : UInt32

/-- Performs a pending compression with extra flags. -/
def Pending.run (p : Pending) (extra : UInt32) : Vector UInt32 16 :=
  compress p.cv p.block p.counter p.len (p.flags ||| extra)

/-- Runs the blocks of one chunk before its last block, returning the chaining value and the
rest of the chunk (at most one block). -/
def chunkPrefix (cv : Vector UInt32 8) (counter : Nat) (first : Bool) (bytes : List UInt8) :
    Vector UInt32 8 × Bool × List UInt8 :=
  if _h : bytes.length > 64 then
    let out := compress cv (blockWords (bytes.take 64)) counter 64 (if first then chunkStart else 0)
    chunkPrefix (chainingValue out) counter false (bytes.drop 64)
  else (cv, first, bytes)
  termination_by bytes.length
  decreasing_by rw [List.length_drop]; omega

/-- The last compression of a chunk of at most 1024 bytes. -/
def chunkOutput (bytes : List UInt8) (counter : Nat) : Pending :=
  let (cv, first, last) := chunkPrefix iv counter true bytes
  ⟨cv, blockWords last, counter, last.length, (if first then chunkStart else 0) ||| chunkEnd⟩

/-- The pending compression of a parent of two chaining values. -/
def parentOutput (left right : Vector UInt32 8) : Pending :=
  ⟨iv, left ++ right, 0, 64, parent⟩

/-- The largest power of two, times 1024, that leaves at least one byte of `n > 1024` to the
right subtree. -/
def leftLength (n : Nat) : Nat := 1024 * Nat.pow 2 (Nat.log2 ((n - 1) / 1024))

theorem leftLength_pos (n : Nat) : 0 < leftLength n := by
  unfold leftLength
  have : 0 < Nat.pow 2 (Nat.log2 ((n - 1) / 1024)) := Nat.two_pow_pos _
  omega

theorem leftLength_lt (n : Nat) (h : 1024 < n) : leftLength n < n := by
  unfold leftLength
  have h1 : Nat.pow 2 (Nat.log2 ((n - 1) / 1024)) ≤ (n - 1) / 1024 :=
    Nat.log2_self_le (by omega)
  have h2 : (n - 1) / 1024 * 1024 ≤ n - 1 := Nat.div_mul_le_self _ _
  omega

/-- The pending root-or-inner compression of the subtree holding `bytes`, whose first chunk
has index `counter`. -/
def subtree (bytes : List UInt8) (counter : Nat) : Pending :=
  if h : bytes.length ≤ 1024 then chunkOutput bytes counter
  else
    let k := leftLength bytes.length
    have hk := leftLength_lt bytes.length (by omega)
    have _ : bytes.length - k < bytes.length := by have := leftLength_pos bytes.length; omega
    let left := chainingValue ((subtree (bytes.take k) counter).run 0)
    let right := chainingValue ((subtree (bytes.drop k) (counter + k / 1024)).run 0)
    parentOutput left right
  termination_by bytes.length
  decreasing_by
    · rw [List.length_take]; omega
    · rw [List.length_drop]; omega

/-- The first 64 bytes of the hash of `bytes`. -/
def digest (bytes : List UInt8) : List UInt8 :=
  ((subtree bytes 0).run root).toList.flatMap wordBytes

/-- The first eight bytes of the hash of a text's UTF-8 encoding, read as a little-endian
natural. -/
def hash64 (s : String) : Nat :=
  ((digest s.toUTF8.toList).take 8).foldr (fun b acc => acc * 256 + b.toNat) 0

end Blake3

end ComposeLowering
