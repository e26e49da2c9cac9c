import CodeIndex.Json.Basic

/-!
Writing JSON text, on one line or with a line for every item. Only quotes, backslashes and control characters are
escaped.
-/

namespace CodeIndex.Json

def hexDigit (n : Nat) : Char := "0123456789abcdef".toList.getD n '0'

def escape (c : Char) : List Char :=
  match c with
  | '"' => ['\\', '"']
  | '\\' => ['\\', '\\']
  | '\n' => ['\\', 'n']
  | '\r' => ['\\', 'r']
  | '\t' => ['\\', 't']
  | '\x08' => ['\\', 'b']
  | '\x0c' => ['\\', 'f']
  | c => if c.toNat < 32 then ['\\', 'u', '0', '0', hexDigit (c.toNat / 16), hexDigit (c.toNat % 16)] else [c]

/-- Appends a string in quotes. -/
def putString (out s : String) : String :=
  (s.foldl (fun out c => (escape c).foldl String.push out) (out.push '"')).push '"'

/-- Digits with the point after the first `point` of them, padded with zeros where there are none. -/
def withPoint (digits : List Char) (point : Int) : List Char :=
  let whole := digits.take point.toNat ++ List.replicate (point.toNat - digits.length) '0'
  let fraction := List.replicate (-point).toNat '0' ++ digits.drop point.toNat
  (if whole.isEmpty then ['0'] else whole) ++ '.' :: (if fraction.isEmpty then ['0'] else fraction)

/-- A decimal as it is written: a whole number without a point, others with one, and those above `10 ^ 16` or below
`10 ^ -5` with an exponent. -/
def Decimal.render (d : Decimal) : String :=
  let digits := Nat.toDigits 10 d.digits
  let point : Int := digits.length + d.exponent
  let text :=
    if d.whole ∧ d.exponent = 0 then digits
    else if -5 < point ∧ point ≤ 16 then withPoint digits point
    else digits.take 1 ++ (if digits.length = 1 then [] else '.' :: digits.drop 1) ++ 'e' :: (toString (point - 1)).toList
  .ofList (if d.negative then '-' :: text else text)

mutual

def put (out : String) : Json → String
  | null => out ++ "null"
  | bool true => out ++ "true"
  | bool false => out ++ "false"
  | num d => out ++ d.render
  | str s => putString out s
  | arr items => (putItems (out.push '[') true items).push ']'
  | obj members => (putMembers (out.push '\x7b') true members).push '\x7d'

def putItems (out : String) (first : Bool) : List Json → String
  | [] => out
  | v :: rest => putItems (put (if first then out else out.push ',') v) false rest

def putMembers (out : String) (first : Bool) : List (String × Json) → String
  | [] => out
  | (name, v) :: rest =>
    putMembers (put ((putString (if first then out else out.push ',') name).push ':') v) false rest

end

def render (v : Json) : String := put "" v

/-- Starts a line so many levels deep. -/
def newLine (out : String) (depth : Nat) : String := out ++ String.ofList ('\n' :: List.replicate (2 * depth) ' ')

mutual

def putPretty (depth : Nat) (out : String) : Json → String
  | arr (v :: rest) => (newLine (putPrettyItems (depth + 1) (out.push '[') true (v :: rest)) depth).push ']'
  | obj (m :: rest) => (newLine (putPrettyMembers (depth + 1) (out.push '\x7b') true (m :: rest)) depth).push '\x7d'
  | arr [] => out ++ "[]"
  | obj [] => (out.push '\x7b').push '\x7d'
  | null => out ++ "null"
  | bool b => out ++ (if b then "true" else "false")
  | num d => out ++ d.render
  | str s => putString out s

def putPrettyItems (depth : Nat) (out : String) (first : Bool) : List Json → String
  | [] => out
  | v :: rest => putPrettyItems depth (putPretty depth (newLine (if first then out else out.push ',') depth) v) false rest

def putPrettyMembers (depth : Nat) (out : String) (first : Bool) : List (String × Json) → String
  | [] => out
  | (name, v) :: rest =>
    let line := putString (newLine (if first then out else out.push ',') depth) name ++ ": "
    putPrettyMembers depth (putPretty depth line v) false rest

end

/-- The value with every item and member on a line of its own, two blanks deeper than what holds it. -/
def pretty (v : Json) : String := putPretty 0 "" v

end CodeIndex.Json
