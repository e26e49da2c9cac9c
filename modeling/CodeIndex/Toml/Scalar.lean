import CodeIndex.Toml.Basic

/-!
Scalars of TOML that stand without quotes: booleans, whole numbers of 64 bits with sign, floating-point numbers,
dates and times.
-/

namespace CodeIndex.Toml

/-- The digits of a number whose underscores each stand between two digits. -/
def underscored? (p : Char → Bool) (cs : List Char) : Option (List Char) :=
  let pieces := cs.splitOn '_'
  if pieces.all fun d => !d.isEmpty && d.all p then some pieces.flatten else none

def digitValue (c : Char) : Nat :=
  if c.isDigit then c.toNat - '0'.toNat
  else if 'a' ≤ c then c.toNat - 'a'.toNat + 10
  else c.toNat - 'A'.toNat + 10

def value (base : Nat) (digits : List Char) : Nat := digits.foldl (fun n c => n * base + digitValue c) 0

def isHexDigit (c : Char) : Bool := c.isDigit || ('a' ≤ c && c ≤ 'f') || ('A' ≤ c && c ≤ 'F')

/-- A sign, if there is one: whether it is a minus, and what follows. -/
def sign (cs : List Char) : Bool × List Char :=
  match cs with
  | '-' :: cs => (true, cs)
  | '+' :: cs => (false, cs)
  | cs => (false, cs)

/-- Decimal digits without a leading zero. -/
def decimal? (cs : List Char) : Option (List Char) :=
  (underscored? Char.isDigit cs).filter fun digits => digits.length = 1 ∨ digits.head? ≠ some '0'

/-- Numbers that 64 bits with sign can hold. -/
def int64? (n : Int) : Option Int := if -Int.pow 2 63 ≤ n ∧ n < Int.pow 2 63 then some n else none

def integer? (cs : List Char) : Option Int :=
  let based (p : Char → Bool) (base : Nat) (cs : List Char) :=
    (underscored? p cs).bind fun digits => int64? (value base digits)
  match cs with
  | '0' :: 'x' :: cs => based isHexDigit 16 cs
  | '0' :: 'o' :: cs => based (fun c => '0' ≤ c && c ≤ '7') 8 cs
  | '0' :: 'b' :: cs => based (fun c => c == '0' || c == '1') 2 cs
  | cs =>
    let (negative, cs) := sign cs
    (decimal? cs).bind fun digits => int64? (if negative then -(value 10 digits : Int) else value 10 digits)

/-- The double next to `digits · 10 ^ exponent`; nothing if that is beyond all doubles. -/
def scaled? (digits : List Char) (exponent : Int) : Option Float :=
  let n := value 10 digits
  let top := (Nat.toDigits 10 n).length + exponent
  if n = 0 ∨ top < -330 then some 0
  else if 310 < top then none
  else
    let f := Float.ofScientific n (decide (exponent < 0)) exponent.natAbs
    if f.isInf then none else some f

/-- The part of a number after its exponent mark. -/
def exponent? (cs : List Char) : Option Int :=
  let (negative, cs) := sign cs
  (underscored? Char.isDigit cs).map fun digits => if negative then -(value 10 digits : Int) else value 10 digits

def float? (cs : List Char) : Option Float :=
  let (negative, cs) := sign cs
  let magnitude : Option Float :=
    if cs = ['i', 'n', 'f'] then some (1 / 0)
    else if cs = ['n', 'a', 'n'] then some (0 / 0)
    else do
      let isMark (c : Char) := c == 'e' || c == 'E'
      let mantissa := cs.takeWhile (!isMark ·)
      let exponent ← match cs.dropWhile (!isMark ·) with
        | [] => some 0
        | _ :: cs => exponent? cs
      let whole ← decimal? (mantissa.takeWhile (· ≠ '.'))
      let fraction ← match mantissa.dropWhile (· ≠ '.') with
        | [] => if cs.any isMark then some [] else none
        | _ :: cs => underscored? Char.isDigit cs
      scaled? (whole ++ fraction) (exponent - fraction.length)
  magnitude.map fun f => if negative then -f else f

/-- A number of so many digits within bounds. -/
def digits? (count low high : Nat) (cs : List Char) : Option (List Char) :=
  let digits := cs.take count
  if digits.length = count ∧ digits.all Char.isDigit ∧ low ≤ value 10 digits ∧ value 10 digits ≤ high then
    some (cs.drop count)
  else none

def daysIn (year month : Nat) : Nat :=
  if month = 2 then if year % 4 = 0 ∧ (year % 100 ≠ 0 ∨ year % 400 = 0) then 29 else 28
  else if month = 4 ∨ month = 6 ∨ month = 9 ∨ month = 11 then 30
  else 31

def expect? (c : Char) : List Char → Option (List Char)
  | d :: cs => if c = d then some cs else none
  | [] => none

/-- What follows a date. -/
def date? (cs : List Char) : Option (List Char) := do
  let year := value 10 (cs.take 4)
  let cs ← (digits? 4 0 9999 cs).bind (expect? '-')
  let month := value 10 (cs.take 2)
  let cs ← (digits? 2 1 12 cs).bind (expect? '-')
  digits? 2 1 (daysIn year month) cs

/-- What follows a time of day; seconds may be left out. -/
def time? (cs : List Char) : Option (List Char) := do
  let cs ← (digits? 2 0 23 cs).bind (expect? ':')
  let cs ← digits? 2 0 59 cs
  match cs with
  | ':' :: cs =>
    let cs ← digits? 2 0 60 cs
    match cs with
    | '.' :: cs => if (cs.head?.any Char.isDigit) then some (cs.dropWhile Char.isDigit) else none
    | cs => some cs
  | cs => some cs

/-- Nothing, or how far a time is from universal time. -/
def isOffset (cs : List Char) : Bool :=
  match cs with
  | [] => true
  | ['Z'] => true
  | ['z'] => true
  | c :: cs =>
    (c == '+' || c == '-') && ((digits? 2 0 23 cs).bind (expect? ':')).bind (digits? 2 0 59) == some []

def isDatetime (cs : List Char) : Bool :=
  match date? cs with
  | some [] => true
  | some (c :: cs) => (c == 'T' || c == 't' || c == ' ') && (time? cs).any isOffset
  | none => time? cs == some []

/-- The scalar that a whole token writes. -/
def ofToken? (cs : List Char) : Option Toml :=
  if cs = ['t', 'r', 'u', 'e'] then some (.bool true)
  else if cs = ['f', 'a', 'l', 's', 'e'] then some (.bool false)
  else if isDatetime cs then some (.datetime (.ofList cs))
  else match integer? cs with
    | some n => some (.int n)
    | none => (float? cs).map .float

end CodeIndex.Toml
