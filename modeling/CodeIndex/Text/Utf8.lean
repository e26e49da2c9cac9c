/-!
Bytes read as UTF-8. Where the bytes are not UTF-8 the lenient reading puts one replacement character for
each longest stretch that begins like a character and then breaks off.
-/

namespace CodeIndex.Text

/-- The text that the bytes spell, if they are UTF-8. -/
def decodeUtf8? (b : ByteArray) : Option String := String.fromUTF8? b

def isContinuation (b : UInt8) : Bool := 0x80 ≤ b && b ≤ 0xbf

/-- Whether `b` may follow the lead byte: no overlong form, no surrogate, nothing above U+10FFFF. -/
def mayFollow (lead b : UInt8) : Bool :=
  if lead == 0xe0 then 0xa0 ≤ b && b ≤ 0xbf
  else if lead == 0xed then 0x80 ≤ b && b ≤ 0x9f
  else if lead == 0xf0 then 0x90 ≤ b && b ≤ 0xbf
  else if lead == 0xf4 then 0x80 ≤ b && b ≤ 0x8f
  else isContinuation b

/-- The number of bytes of a character that starts with this byte; zero if none does. -/
def leadWidth (b : UInt8) : Nat :=
  if b < 0x80 then 1
  else if 0xc2 ≤ b && b ≤ 0xdf then 2
  else if 0xe0 ≤ b && b ≤ 0xef then 3
  else if 0xf0 ≤ b && b ≤ 0xf4 then 4
  else 0

def tailBits (b : UInt8) : Nat := b.toNat % 64

/-- One character or one replacement from the front of `lead :: rest`, and how many bytes of `rest` it uses. -/
def decodeOne (lead : UInt8) (rest : List UInt8) : Char × Nat :=
  match leadWidth lead, rest with
  | 1, _ => (Char.ofNat lead.toNat, 0)
  | 2, b :: _ => if isContinuation b then (Char.ofNat (lead.toNat % 32 * 64 + tailBits b), 1) else ('\ufffd', 0)
  | 3, b :: rest =>
    if mayFollow lead b then
      match rest with
      | c :: _ =>
        if isContinuation c then (Char.ofNat (lead.toNat % 16 * 4096 + tailBits b * 64 + tailBits c), 2)
        else ('\ufffd', 1)
      | [] => ('\ufffd', 1)
    else ('\ufffd', 0)
  | 4, b :: rest =>
    if mayFollow lead b then
      match rest with
      | c :: d :: _ =>
        if isContinuation c then
          if isContinuation d then
            (Char.ofNat (lead.toNat % 8 * 262144 + tailBits b * 4096 + tailBits c * 64 + tailBits d), 3)
          else ('\ufffd', 2)
        else ('\ufffd', 1)
      | [c] => ('\ufffd', if isContinuation c then 2 else 1)
      | [] => ('\ufffd', 1)
    else ('\ufffd', 0)
  | _, _ => ('\ufffd', 0)

/-- The lenient reading; `skip` bytes still belong to the character read last. -/
def decodeFrom (skip : Nat) (out : List Char) : List UInt8 → List Char
  | [] => out.reverse
  | b :: rest =>
    match skip with
    | k + 1 => decodeFrom k out rest
    | 0 =>
      let (c, used) := decodeOne b rest
      decodeFrom used (c :: out) rest

/-- The lenient reading of any bytes; of UTF-8 it is the text itself. -/
def decodeLossy (b : ByteArray) : String :=
  match decodeUtf8? b with
  | some s => s
  | none => .ofList (decodeFrom 0 [] b.toList)

end CodeIndex.Text
