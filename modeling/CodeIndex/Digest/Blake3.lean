/-!
BLAKE3 in its plain hashing mode. The input is cut into chunks of 1024 bytes, the leaves of a binary tree in
which every left half is full; each leaf and each parent is one chain of compressions, and the last
compression of the root gives the digest.
-/

namespace CodeIndex.Digest.Blake3

abbrev Words (n : Nat) := Vector UInt32 n

def initial : Words 8 :=
  #v[0x6a09e667, 0xbb67ae85, 0x3c6ef372, 0xa54ff53a, 0x510e527f, 0x9b05688c, 0x1f83d9ab, 0x5be0cd19]

def chunkStart : UInt32 := 1
def chunkEnd : UInt32 := 2
def parent : UInt32 := 4
def root : UInt32 := 8

def rotate (x : UInt32) (n : UInt32) : UInt32 := (x >>> n) ||| (x <<< (32 - n))

/-- The quarter round on four words of the state, taking in two words of the message. -/
def mix (v : Words 16) (a b c d : Fin 16) (x y : UInt32) : Words 16 :=
  let va := v[a] + v[b] + x
  let vd := rotate (v[d] ^^^ va) 16
  let vc := v[c] + vd
  let vb := rotate (v[b] ^^^ vc) 12
  let va := va + vb + y
  let vd := rotate (vd ^^^ va) 8
  let vc := vc + vd
  let vb := rotate (vb ^^^ vc) 7
  (((v.set a va).set b vb).set c vc).set d vd

/-- Mixes the four columns, then the four diagonals. -/
def roundOnce (v m : Words 16) : Words 16 :=
  let v := mix v 0 4 8 12 m[0] m[1]
  let v := mix v 1 5 9 13 m[2] m[3]
  let v := mix v 2 6 10 14 m[4] m[5]
  let v := mix v 3 7 11 15 m[6] m[7]
  let v := mix v 0 5 10 15 m[8] m[9]
  let v := mix v 1 6 11 12 m[10] m[11]
  let v := mix v 2 7 8 13 m[12] m[13]
  mix v 3 4 9 14 m[14] m[15]

/-- The order in which the next round takes the words of the message. -/
def permute (m : Words 16) : Words 16 :=
  #v[m[2], m[6], m[3], m[10], m[7], m[0], m[4], m[13], m[1], m[11], m[12], m[5], m[9], m[14], m[15], m[8]]

def rounds : Nat → Words 16 → Words 16 → Words 16
  | 0, v, _ => v
  | n + 1, v, m => rounds n (roundOnce v m) (permute m)

/-- What one compression needs; kept apart from its result because the root is compressed with a flag more. -/
structure Block where
  chaining : Words 8
  message : Words 16
  counter : UInt64
  length : UInt32
  flags : UInt32

/-- The chaining value that the block passes on. -/
def Block.compress (b : Block) : Words 8 :=
  let h := b.chaining
  let v : Words 16 :=
    #v[h[0], h[1], h[2], h[3], h[4], h[5], h[6], h[7], initial[0], initial[1], initial[2], initial[3],
      b.counter.toUInt32, (b.counter >>> 32).toUInt32, b.length, b.flags]
  let v := rounds 7 v b.message
  #v[v[0] ^^^ v[8], v[1] ^^^ v[9], v[2] ^^^ v[10], v[3] ^^^ v[11], v[4] ^^^ v[12], v[5] ^^^ v[13],
    v[6] ^^^ v[14], v[7] ^^^ v[15]]

def byteAt (input : ByteArray) (stop i : Nat) : UInt32 :=
  if i < stop then if h : i < input.size then input[i].toUInt32 else 0 else 0

/-- The little-endian word at `i`; bytes from `stop` on count as zero. -/
def wordAt (input : ByteArray) (stop i : Nat) : UInt32 :=
  byteAt input stop i ||| (byteAt input stop (i + 1) <<< 8) ||| (byteAt input stop (i + 2) <<< 16) |||
    (byteAt input stop (i + 3) <<< 24)

def messageAt (input : ByteArray) (stop i : Nat) : Words 16 :=
  Vector.ofFn fun k => wordAt input stop (i + 4 * k.val)

/-- The last block of the chunk that holds the bytes from `i` to `stop`, the blocks before it compressed. -/
def chunkBlock (input : ByteArray) (counter : UInt64) (h : Words 8) (flags : UInt32) (i stop : Nat) : Block :=
  if i + 64 < stop then
    let next := Block.compress ⟨h, messageAt input (i + 64) i, counter, 64, flags⟩
    chunkBlock input counter next 0 (i + 64) stop
  else ⟨h, messageAt input stop i, counter, (stop - i).toUInt32, flags ||| chunkEnd⟩
termination_by stop - i

def parentBlock (l r : Words 8) : Block :=
  ⟨initial, (l ++ r).cast rfl, 0, 64, parent⟩

/-- How many chunks the left half of a tree over `chunks ≥ 2` chunks takes: the largest power of two below. -/
def leftChunks (chunks : Nat) : Nat := Nat.pow 2 (Nat.log2 (chunks - 1))

theorem leftChunks_lt {n : Nat} (h : 2 ≤ n) : leftChunks n < n := by
  have h : Nat.pow 2 (Nat.log2 (n - 1)) ≤ n - 1 := Nat.log2_self_le (by omega)
  unfold leftChunks
  omega

/-- The last block of the subtree over `chunks` chunks that starts at chunk `first`. -/
def treeBlock (input : ByteArray) (first chunks : Nat) : Block :=
  if h : 2 ≤ chunks then
    let l := treeBlock input first (leftChunks chunks)
    let r := treeBlock input (first + leftChunks chunks) (chunks - leftChunks chunks)
    parentBlock l.compress r.compress
  else
    chunkBlock input first.toUInt64 initial chunkStart (first * 1024) (min input.size (first * 1024 + 1024))
termination_by chunks
decreasing_by
  · exact leftChunks_lt h
  · exact Nat.sub_lt (Nat.zero_lt_of_lt h) (Nat.two_pow_pos _)

/-- The digest as eight little-endian words. -/
def digest (input : ByteArray) : Words 8 :=
  let last := treeBlock input 0 ((input.size + 1023) / 1024)
  Block.compress { last with flags := last.flags ||| root }

def hexDigit (n : UInt32) : Char := "0123456789abcdef".toList.getD (n % 16).toNat '0'

/-- The four bytes of a word, the lowest first, two digits each. -/
def wordHex (w : UInt32) : List Char :=
  [hexDigit (w >>> 4), hexDigit w, hexDigit (w >>> 12), hexDigit (w >>> 8), hexDigit (w >>> 20),
    hexDigit (w >>> 16), hexDigit (w >>> 28), hexDigit (w >>> 24)]

/-- The digest in lower-case hexadecimal, byte by byte. -/
def hex (input : ByteArray) : String := .ofList ((digest input).toList.flatMap wordHex)

end CodeIndex.Digest.Blake3
