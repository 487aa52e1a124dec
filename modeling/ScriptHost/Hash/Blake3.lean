import ScriptHost.Text.Quoted

/-!
# Blake3 — the digest of a sequence of bytes

The bytes are cut into chunks of 1024 bytes, and the chunks are the leaves of a binary tree whose left
side is as large a power of two as leaves something for the right side.  Every node is one compression
of a block under the chain of words before it; the digest is that of the root.
-/

namespace ScriptHost.Hash

/-! ## 1. Compression -/

/-- Sixteen words of a block or of a state, or the eight words of a chain. -/
abbrev Words := Array UInt32

def word (w : Words) (i : Nat) : UInt32 := w.getD i 0

/-- The words that a chain starts with. -/
def initialChain : Words :=
  #[0x6A09E667, 0xBB67AE85, 0x3C6EF372, 0xA54FF53A, 0x510E527F, 0x9B05688C, 0x1F83D9AB, 0x5BE0CD19]

def rotateRight (x : UInt32) (n : UInt32) : UInt32 := (x >>> n) ||| (x <<< (32 - n))

/-- Mixes two words of a message into four words of a state. -/
def mix (s : Words) (a b c d : Nat) (x y : UInt32) : Words :=
  let va := word s a + word s b + x
  let vd := rotateRight (word s d ^^^ va) 16
  let vc := word s c + vd
  let vb := rotateRight (word s b ^^^ vc) 12
  let va := va + vb + y
  let vd := rotateRight (vd ^^^ va) 8
  let vc := vc + vd
  let vb := rotateRight (vb ^^^ vc) 7
  (((s.setIfInBounds a va).setIfInBounds b vb).setIfInBounds c vc).setIfInBounds d vd

/-- Mixes a whole message into a state: columns, then diagonals. -/
def round (s m : Words) : Words :=
  let s := mix s 0 4 8 12 (word m 0) (word m 1)
  let s := mix s 1 5 9 13 (word m 2) (word m 3)
  let s := mix s 2 6 10 14 (word m 4) (word m 5)
  let s := mix s 3 7 11 15 (word m 6) (word m 7)
  let s := mix s 0 5 10 15 (word m 8) (word m 9)
  let s := mix s 1 6 11 12 (word m 10) (word m 11)
  let s := mix s 2 7 8 13 (word m 12) (word m 13)
  mix s 3 4 9 14 (word m 14) (word m 15)

/-- The order in which the words of a message enter the next round. -/
def schedule : Array Nat := #[2, 6, 3, 10, 7, 0, 4, 13, 1, 11, 12, 5, 9, 14, 15, 8]

def rounds : Nat → Words → Words → Words
  | 0, s, _ => s
  | n + 1, s, m => rounds n (round s m) (schedule.map (word m))

/-- A compression that is still to be done: a block of `size` bytes under a chain. -/
structure Node where
  chain : Words
  block : Words
  counter : UInt64
  size : UInt32
  flags : UInt32

/-- The eight words that a node hands to what stands above it, or the root's digest. -/
def Node.compress (n : Node) (flags : UInt32) : Words :=
  let s := n.chain ++ initialChain.take 4 ++
    #[n.counter.toUInt32, (n.counter >>> 32).toUInt32, n.size, n.flags ||| flags]
  let s := rounds 7 s n.block
  Array.ofFn fun i : Fin 8 => word s i ^^^ word s (i + 8)

/-! ## 2. Chunks and the tree -/

def chunkStart : UInt32 := 1

def chunkEnd : UInt32 := 2

def parent : UInt32 := 4

def root : UInt32 := 8

/-- Bytes as words, the least significant byte first. -/
def packed : List UInt8 → List UInt32
  | [] => []
  | a :: b :: c :: d :: rest =>
    (a.toUInt32 ||| (b.toUInt32 <<< 8) ||| (c.toUInt32 <<< 16) ||| (d.toUInt32 <<< 24)) :: packed rest
  | [a, b, c] => [a.toUInt32 ||| (b.toUInt32 <<< 8) ||| (c.toUInt32 <<< 16)]
  | [a, b] => [a.toUInt32 ||| (b.toUInt32 <<< 8)]
  | [a] => [a.toUInt32]

/-- A block of at most 64 bytes, filled up with zeros. -/
def blockOf (bytes : List UInt8) : Words :=
  let words := (packed bytes).toArray
  words ++ Array.replicate (16 - words.size) 0

/-- The last block of a chunk, with those before it compressed into its chain. -/
def chunkNode (counter : UInt64) (chain : Words) (flags : UInt32) (bytes : List UInt8) : Node :=
  if _h : bytes.length ≤ 64 then
    ⟨chain, blockOf bytes, counter, bytes.length.toUInt32, flags ||| chunkEnd⟩
  else
    let node : Node := ⟨chain, blockOf (bytes.take 64), counter, 64, flags⟩
    chunkNode counter (node.compress 0) 0 (bytes.drop 64)
termination_by bytes.length
decreasing_by simp only [List.length_drop]; omega

/-- How many bytes of `n` stand on the left of a tree. -/
def leftSize (n : Nat) : Nat := 1024 <<< ((n - 1) / 1024).log2

theorem leftSize_pos (n : Nat) : 0 < leftSize n := by
  rw [leftSize, Nat.shiftLeft_eq]
  exact Nat.mul_pos (by decide) (Nat.two_pow_pos _)

theorem leftSize_lt {n : Nat} (h : 1024 < n) : leftSize n < n := by
  have hk : (n - 1) / 1024 ≠ 0 := by omega
  have hp := Nat.log2_self_le hk
  have hm : 1024 * ((n - 1) / 1024) ≤ n - 1 := Nat.mul_div_le _ _
  have := Nat.mul_le_mul_left 1024 hp
  rw [leftSize, Nat.shiftLeft_eq]
  omega

/-- The root of the tree over some bytes whose first chunk is number `counter`. -/
def tree (counter : UInt64) (bytes : List UInt8) : Node :=
  if _h : bytes.length ≤ 1024 then chunkNode counter initialChain chunkStart bytes
  else
    let n := leftSize bytes.length
    let left := tree counter (bytes.take n)
    let right := tree (counter + (n / 1024).toUInt64) (bytes.drop n)
    ⟨initialChain, left.compress 0 ++ right.compress 0, 0, 64, parent⟩
termination_by bytes.length
decreasing_by
  · have := leftSize_lt (n := bytes.length) (by omega)
    simp only [List.length_take]
    omega
  · have := leftSize_pos bytes.length
    simp only [List.length_drop]
    omega

/-- The bytes of a word, the least significant one first. -/
def unpacked (w : UInt32) : List UInt8 :=
  [w.toUInt8, (w >>> 8).toUInt8, (w >>> 16).toUInt8, (w >>> 24).toUInt8]

/-- The digest of some bytes, 32 bytes long. -/
def blake3 (bytes : List UInt8) : List UInt8 :=
  ((tree 0 bytes).compress root).toList.flatMap unpacked

/-- Bytes in hexadecimal digits. -/
def hexText (bytes : List UInt8) : String :=
  String.join (bytes.map fun b => Text.hexPadded 2 b.toNat)

end ScriptHost.Hash
