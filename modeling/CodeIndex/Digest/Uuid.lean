import CodeIndex.Digest.Sha1

/-!
Name-based identifiers: the SHA-1 digest of a namespace and a name, cut to sixteen bytes and marked as
version five.
-/

namespace CodeIndex.Digest.Uuid

def hexPair (b : UInt8) : List Char :=
  let digit (n : Nat) : Char := "0123456789abcdef".toList.getD n '0'
  [digit (b.toNat / 16), digit (b.toNat % 16)]

/-- Sixteen bytes in the form 8-4-4-4-12. -/
def render (bytes : List UInt8) : String :=
  let hex := bytes.flatMap hexPair
  let group (start len : Nat) : String := .ofList ((hex.drop start).take len)
  "-".intercalate [group 0 8, group 8 4, group 12 4, group 16 4, group 20 12]

/-- The version goes into the seventh byte, the variant into the ninth. -/
def mark (bytes : List UInt8) : List UInt8 :=
  (bytes.modify 6 fun b => (b &&& 0x0f) ||| 0x50).modify 8 fun b => (b &&& 0x3f) ||| 0x80

def ofName (space : List UInt8) (name : String) : String :=
  render (mark ((Sha1.digest (space ++ name.toUTF8.toList)).take 16))

end CodeIndex.Digest.Uuid
