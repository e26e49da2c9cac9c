/-!
SHA-1, which name-based identifiers are made with.
-/

namespace CodeIndex.Digest.Sha1

structure State where
  a : UInt32
  b : UInt32
  c : UInt32
  d : UInt32
  e : UInt32

def initial : State := ⟨0x67452301, 0xefcdab89, 0x98badcfe, 0x10325476, 0xc3d2e1f0⟩

def rotate (x : UInt32) (n : UInt32) : UInt32 := (x <<< n) ||| (x >>> (32 - n))

/-- The big-endian bytes of `n`, `k` of them. -/
def bigEndian (k n : Nat) : List UInt8 := (List.range k).reverse.map fun i => (n >>> (8 * i)).toUInt8

/-- The message closed by a one bit, zeros and its length in bits, to a multiple of 64 bytes. -/
def padded (m : List UInt8) : List UInt8 :=
  m ++ [0x80] ++ List.replicate ((119 - m.length % 64) % 64) 0 ++ bigEndian 8 (8 * m.length)

def wordsOf : List UInt8 → List UInt32
  | a :: b :: c :: d :: rest =>
    ((a.toUInt32 <<< 24) ||| (b.toUInt32 <<< 16) ||| (c.toUInt32 <<< 8) ||| d.toUInt32) :: wordsOf rest
  | _ => []

/-- The message schedule: sixteen words extended to eighty. -/
def schedule (block : Array UInt32) : Array UInt32 :=
  (List.range 64).foldl (fun w i =>
    w.push (rotate (w.getD (i + 13) 0 ^^^ w.getD (i + 8) 0 ^^^ w.getD (i + 2) 0 ^^^ w.getD i 0) 1)) block

def step (s : State) (t : Nat) (w : UInt32) : State :=
  let (f, k) :=
    if t < 20 then ((s.b &&& s.c) ||| (~~~s.b &&& s.d), (0x5a827999 : UInt32))
    else if t < 40 then (s.b ^^^ s.c ^^^ s.d, 0x6ed9eba1)
    else if t < 60 then ((s.b &&& s.c) ||| (s.b &&& s.d) ||| (s.c &&& s.d), 0x8f1bbcdc)
    else (s.b ^^^ s.c ^^^ s.d, 0xca62c1d6)
  ⟨rotate s.a 5 + f + s.e + k + w, s.a, rotate s.b 30, s.c, s.d⟩

def compress (s : State) (block : Array UInt32) : State :=
  let w := schedule block
  let r := (List.range 80).foldl (fun r t => step r t (w.getD t 0)) s
  ⟨s.a + r.a, s.b + r.b, s.c + r.c, s.d + r.d, s.e + r.e⟩

/-- Compresses block after block; `n` bounds the number of blocks. -/
def blocks : Nat → State → List UInt32 → State
  | 0, s, _ => s
  | n + 1, s, ws => if ws.isEmpty then s else blocks n (compress s (ws.take 16).toArray) (ws.drop 16)

/-- The digest's twenty bytes. -/
def digest (m : List UInt8) : List UInt8 :=
  let p := padded m
  let s := blocks (p.length / 64) initial (wordsOf p)
  [s.a, s.b, s.c, s.d, s.e].flatMap fun w => bigEndian 4 w.toNat

end CodeIndex.Digest.Sha1
