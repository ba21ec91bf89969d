import RelQuery.Text

/-!
# RelQuery.Digest

Digests: 256-bit fingerprints of byte sequences, computed by BLAKE3.

The input is cut into chunks of 1024 bytes, which are the leaves of a binary tree: the left subtree
of every inner node is a perfect tree, and as large as it can be while the right one is not empty.
A chunk is compressed block by block, a block having 64 bytes; an inner node compresses the chaining
values of its two subtrees; the last compression at the root, marked as such, gives the digest.
-/

namespace RelQuery

/-- A fingerprint of a byte sequence. -/
structure Digest where
  bytes : List UInt8
deriving DecidableEq, Repr, Inhabited

namespace Digest

/-- The digest in hexadecimal digits. -/
def hex (d : Digest) : String := Bytes.hex d.bytes

/-! ### Compression -/

/-- A chaining value: what a subtree is represented by. -/
abbrev Chain := Vector UInt32 8

/-- The words of a block, and of the state that compression works on. -/
abbrev Words := Vector UInt32 16

/-- The chaining value in front of the first block of a chunk. -/
def initial : Chain :=
  #v[0x6A09E667, 0xBB67AE85, 0x3C6EF372, 0xA54FF53A, 0x510E527F, 0x9B05688C, 0x1F83D9AB, 0x5BE0CD19]

/-- Marks the first block of a chunk. -/
def chunkStart : UInt32 := 1

/-- Marks the last block of a chunk. -/
def chunkEnd : UInt32 := 2

/-- Marks an inner node. -/
def parent : UInt32 := 4

/-- Marks the last compression at the root. -/
def root : UInt32 := 8

/-- Where each message word of a round comes from in the round before. -/
def permutation : Vector (Fin 16) 16 :=
  #v[2, 6, 3, 10, 7, 0, 4, 13, 1, 11, 12, 5, 9, 14, 15, 8]

/-- Rotates a word to the right, by less than its width. -/
def rotate (x : UInt32) (count : UInt32) : UInt32 :=
  (x >>> count) ||| (x <<< (32 - count))

/-- Mixes two message words into four words of the state. -/
def mix (s : Words) (a b c d : Fin 16) (x y : UInt32) : Words :=
  let s := s.set a (s[a] + s[b] + x)
  let s := s.set d (rotate (s[d] ^^^ s[a]) 16)
  let s := s.set c (s[c] + s[d])
  let s := s.set b (rotate (s[b] ^^^ s[c]) 12)
  let s := s.set a (s[a] + s[b] + y)
  let s := s.set d (rotate (s[d] ^^^ s[a]) 8)
  let s := s.set c (s[c] + s[d])
  s.set b (rotate (s[b] ^^^ s[c]) 7)

/-- One round: the state as four rows of four words is mixed by columns, then by diagonals. -/
def round (s m : Words) : Words :=
  let s := mix s 0 4 8 12 m[0] m[1]
  let s := mix s 1 5 9 13 m[2] m[3]
  let s := mix s 2 6 10 14 m[4] m[5]
  let s := mix s 3 7 11 15 m[6] m[7]
  let s := mix s 0 5 10 15 m[8] m[9]
  let s := mix s 1 6 11 12 m[10] m[11]
  let s := mix s 2 7 8 13 m[12] m[13]
  mix s 3 4 9 14 m[14] m[15]

/-- This many rounds, with the message words permuted in between. -/
def rounds : Nat → Words → Words → Words
  | 0, s, _ => s
  | n + 1, s, m => rounds n (round s m) (permutation.map fun i => m[i])

/-- What one compression is applied to. -/
structure Node where
  /-- The chaining value so far. -/
  chain : Chain
  block : Words
  /-- The number of the chunk; zero for an inner node. -/
  counter : Nat
  length : Nat
  /-- The marks of the block. -/
  flags : UInt32

namespace Node

/-- The chaining value that a block leads to. -/
def compress (n : Node) : Chain :=
  -- The rows of the state: the chaining value, half of the initial one, and the place of the block.
  let s : Words :=
    #v[n.chain[0], n.chain[1], n.chain[2], n.chain[3],
       n.chain[4], n.chain[5], n.chain[6], n.chain[7],
       initial[0], initial[1], initial[2], initial[3],
       UInt32.ofNat n.counter, UInt32.ofNat (n.counter >>> 32), UInt32.ofNat n.length, n.flags]
  let s := rounds 7 s n.block
  Vector.ofFn fun i : Fin 8 => s[i.val] ^^^ s[i.val + 8]

/-- The bytes of the digest, if the node is the root. -/
def digest (n : Node) : Digest :=
  let words := { n with counter := 0, flags := n.flags ||| root }.compress
  ⟨words.toList.flatMap fun w => Bytes.littleEndian 4 w.toNat⟩

end Node

/-! ### Chunks and the tree -/

/-- The word that starts at a position of a byte sequence; missing bytes are zero. -/
def wordAt (bytes : List UInt8) (i : Nat) : UInt32 :=
  UInt32.ofNat <| ((bytes.drop i).take 4).foldr (fun b n => b.toNat + 256 * n) 0

/-- The sixteen words of a block. -/
def blockWords (bytes : List UInt8) : Words :=
  Vector.ofFn fun i : Fin 16 => wordAt bytes (4 * i.val)

/-- The last node of a chunk, from a block on: every earlier block is compressed into the chaining
value. -/
def chunkFrom (counter : Nat) (chain : Chain) (flags : UInt32) (bytes : List UInt8) : Node :=
  let node : Node :=
    ⟨chain, blockWords bytes, counter, min bytes.length 64, flags⟩
  if bytes.length ≤ 64 then { node with flags := flags ||| chunkEnd }
  else chunkFrom counter node.compress 0 (bytes.drop 64)
termination_by bytes.length
decreasing_by simp only [List.length_drop]; omega

/-- The number of bytes in a chunk. -/
def chunkLength : Nat := 1024

/-- The bytes of the left subtree of an input that is longer than a chunk. -/
def leftLength (length : Nat) : Nat :=
  chunkLength * Nat.pow 2 ((length - 1) / chunkLength).log2

theorem leftLength_lt {length : Nat} (h : chunkLength < length) : leftLength length < length := by
  simp only [leftLength, Nat.pow_eq]
  have pos : (length - 1) / chunkLength ≠ 0 := by
    have : 1 ≤ (length - 1) / chunkLength :=
      (Nat.le_div_iff_mul_le (by decide)).2 (by omega)
    omega
  have := Nat.mul_le_mul_left chunkLength (Nat.log2_self_le pos)
  have := Nat.mul_div_le (length - 1) chunkLength
  omega

theorem leftLength_pos (length : Nat) : 0 < leftLength length :=
  Nat.mul_pos (by decide) (Nat.two_pow_pos _)

/-- The topmost node of the tree over a byte sequence, whose first chunk has this number. -/
def tree (counter : Nat) (bytes : List UInt8) : Node :=
  if chunkLength < bytes.length then
    let n := leftLength bytes.length
    let left := (tree counter (bytes.take n)).compress
    let right := (tree (counter + n / chunkLength) (bytes.drop n)).compress
    ⟨initial, (left ++ right).cast rfl, 0, 64, parent⟩
  else chunkFrom counter initial chunkStart bytes
termination_by bytes.length
decreasing_by
  · have := leftLength_lt ‹_›
    simp only [List.length_take]
    omega
  · have := leftLength_pos bytes.length
    simp only [List.length_drop]
    omega

/-- The digest of a byte sequence. -/
def ofBytes (bytes : List UInt8) : Digest :=
  (tree 0 bytes).digest

/-- The digest of the UTF-8 bytes of a text. -/
def ofText (s : String) : Digest :=
  ofBytes s.toUTF8.toList

end Digest

end RelQuery
