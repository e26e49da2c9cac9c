import CodeIndex.Json.Basic

/-!
Reading JSON text: the strict grammar, no more than 128 levels deep, with nothing but blanks around the value.
-/

namespace CodeIndex.Json

def isBlank (c : Char) : Bool := c == ' ' || c == '\n' || c == '\t' || c == '\r'

def hexValue? (c : Char) : Option Nat :=
  if c.isDigit then some (c.toNat - '0'.toNat)
  else if 'a' ≤ c ∧ c ≤ 'f' then some (c.toNat - 'a'.toNat + 10)
  else if 'A' ≤ c ∧ c ≤ 'F' then some (c.toNat - 'A'.toNat + 10)
  else none

/-- Four hexadecimal digits. -/
def hex4? : List Char → Option (Nat × List Char)
  | a :: b :: c :: d :: rest => do
    let a ← hexValue? a
    let b ← hexValue? b
    let c ← hexValue? c
    let d ← hexValue? d
    some (((a * 16 + b) * 16 + c) * 16 + d, rest)
  | _ => none

/-- The character after `\u`; two halves of a pair make one character, a lone half is refused. -/
def unicode? (cs : List Char) : Option (Char × List Char) := do
  let (n, rest) ← hex4? cs
  if 0xd800 ≤ n ∧ n < 0xdc00 then
    match rest with
    | '\\' :: 'u' :: rest =>
      let (m, rest) ← hex4? rest
      if 0xdc00 ≤ m ∧ m < 0xe000 then some (.ofNat (0x10000 + (n - 0xd800) * 0x400 + (m - 0xdc00)), rest) else none
    | _ => none
  else if 0xdc00 ≤ n ∧ n < 0xe000 then none
  else some (.ofNat n, rest)

/-- The rest of a string after its opening quote. -/
def readString (fuel : Nat) (out : List Char) (cs : List Char) : Option (String × List Char) :=
  match fuel, cs with
  | 0, _ => none
  | _, [] => none
  | _, '"' :: rest => some (.ofList out.reverse, rest)
  | fuel + 1, '\\' :: c :: rest =>
    match c with
    | '"' => readString fuel ('"' :: out) rest
    | '\\' => readString fuel ('\\' :: out) rest
    | '/' => readString fuel ('/' :: out) rest
    | 'b' => readString fuel ('\x08' :: out) rest
    | 'f' => readString fuel ('\x0c' :: out) rest
    | 'n' => readString fuel ('\n' :: out) rest
    | 'r' => readString fuel ('\r' :: out) rest
    | 't' => readString fuel ('\t' :: out) rest
    | 'u' =>
      match unicode? rest with
      | some (c, rest) => readString fuel (c :: out) rest
      | none => none
    | _ => none
  | fuel + 1, c :: rest => if c.toNat < 32 then none else readString fuel (c :: out) rest

def digitsValue (cs : List Char) : Nat := cs.foldl (fun n c => n * 10 + (c.toNat - '0'.toNat)) 0

/-- The exponent of a number, if one is written. -/
def readExponent (cs : List Char) : Option (Option Int × List Char) :=
  match cs with
  | e :: rest =>
    if e == 'e' || e == 'E' then
      let (sign, rest) := match rest with
        | '-' :: rest => ((-1 : Int), rest)
        | '+' :: rest => (1, rest)
        | rest => (1, rest)
      let digits := rest.takeWhile Char.isDigit
      if digits.isEmpty then none else some (some (sign * digitsValue digits), rest.dropWhile Char.isDigit)
    else some (none, cs)
  | [] => some (none, [])

/-- A number without its sign: no leading zero, digits on both sides of a point. -/
def readNumber (negative : Bool) (cs : List Char) : Option (Json × List Char) := do
  let whole := cs.takeWhile Char.isDigit
  let rest := cs.dropWhile Char.isDigit
  if whole.isEmpty || (whole.head? == some '0' && whole != ['0']) then none
  else
    let (fraction, rest) ← match rest with
      | '.' :: rest =>
        let fraction := rest.takeWhile Char.isDigit
        if fraction.isEmpty then none else some (fraction, rest.dropWhile Char.isDigit)
      | rest => some ([], rest)
    let (exponent, rest) ← readExponent rest
    some (.num ⟨negative, digitsValue (whole ++ fraction), exponent.getD 0 - fraction.length,
      fraction.isEmpty && exponent.isNone⟩, rest)

mutual

/-- One value, and what follows it. -/
def readValue (fuel depth : Nat) (cs : List Char) : Option (Json × List Char) :=
  match fuel with
  | 0 => none
  | fuel + 1 =>
    match cs.dropWhile isBlank with
    | '"' :: rest => (readString (rest.length + 1) [] rest).map fun (s, rest) => (.str s, rest)
    | '-' :: rest => readNumber true rest
    | '[' :: rest =>
      match depth with
      | 0 => none
      | depth + 1 =>
        match rest.dropWhile isBlank with
        | ']' :: rest => some (.arr [], rest)
        | rest => readItems fuel depth [] rest
    | '\x7b' :: rest =>
      match depth with
      | 0 => none
      | depth + 1 =>
        match rest.dropWhile isBlank with
        | '\x7d' :: rest => some (.obj [], rest)
        | rest => readMembers fuel depth [] rest
    | 't' :: 'r' :: 'u' :: 'e' :: rest => some (.bool true, rest)
    | 'f' :: 'a' :: 'l' :: 's' :: 'e' :: rest => some (.bool false, rest)
    | 'n' :: 'u' :: 'l' :: 'l' :: rest => some (.null, rest)
    | rest => readNumber false rest

/-- The items of an array from the next one on; those read stand backwards in `out`. -/
def readItems (fuel depth : Nat) (out : List Json) (cs : List Char) : Option (Json × List Char) :=
  match fuel with
  | 0 => none
  | fuel + 1 =>
    match readValue fuel depth cs with
    | none => none
    | some (v, rest) =>
      match rest.dropWhile isBlank with
      | ',' :: rest => readItems fuel depth (v :: out) rest
      | ']' :: rest => some (.arr (v :: out).reverse, rest)
      | _ => none

/-- The members of an object from the next one on. -/
def readMembers (fuel depth : Nat) (out : List (String × Json)) (cs : List Char) : Option (Json × List Char) :=
  match fuel with
  | 0 => none
  | fuel + 1 =>
    match cs.dropWhile isBlank with
    | '"' :: rest =>
      match readString (rest.length + 1) [] rest with
      | none => none
      | some (name, rest) =>
        match rest.dropWhile isBlank with
        | ':' :: rest =>
          match readValue fuel depth rest with
          | none => none
          | some (v, rest) =>
            match rest.dropWhile isBlank with
            | ',' :: rest => readMembers fuel depth ((name, v) :: out) rest
            | '\x7d' :: rest => some (.obj ((name, v) :: out).reverse, rest)
            | _ => none
        | _ => none
    | _ => none

end

/-- Levels of arrays and objects that a text may nest. -/
def maxDepth : Nat := 127

/-- The value a text writes, if it is one JSON value. -/
def parse? (text : String) : Option Json :=
  let cs := text.toList
  match readValue (2 * cs.length + 2) maxDepth cs with
  | some (v, rest) => if rest.all isBlank then some v else none
  | none => none

end CodeIndex.Json
