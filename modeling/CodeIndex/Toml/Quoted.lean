import CodeIndex.Toml.Scalar

/-!
Quoted texts of TOML: basic ones with escapes and literal ones without, each on one line or, between threefold
quotes, over several. Every reader gives the text and what follows it.
-/

namespace CodeIndex.Toml

/-- Characters that may stand in a quoted text or a comment for themselves. -/
def isPlain (c : Char) : Bool := c == '\t' || (0x20 ≤ c.toNat && c.toNat != 0x7f)

/-- The character with the number that so many hexadecimal digits write. -/
def byNumber? (count : Nat) (cs : List Char) : Option Char :=
  let digits := cs.take count
  let n := value 16 digits
  if digits.length = count ∧ digits.all isHexDigit ∧ n.isValidChar then some (.ofNat n) else none

/-- The character that an escape stands for, and how many characters follow the backslash. -/
def escape? : List Char → Option (Char × Nat)
  | 'b' :: _ => some ('\x08', 1)
  | 't' :: _ => some ('\t', 1)
  | 'n' :: _ => some ('\n', 1)
  | 'f' :: _ => some ('\x0c', 1)
  | 'r' :: _ => some ('\r', 1)
  | 'e' :: _ => some ('\x1b', 1)
  | '"' :: _ => some ('"', 1)
  | '\\' :: _ => some ('\\', 1)
  | 'x' :: cs => (byNumber? 2 cs).map (·, 3)
  | 'u' :: cs => (byNumber? 4 cs).map (·, 5)
  | 'U' :: cs => (byNumber? 8 cs).map (·, 9)
  | _ => none

abbrev Rest (α : Type) := Option (α × List Char)

/-- A basic text on one line, after its opening quote; `skip` characters belong to an escape that was read. -/
def basicFrom (out : List Char) (skip : Nat) : List Char → Rest String
  | [] => none
  | c :: cs =>
    match skip with
    | k + 1 => basicFrom out k cs
    | 0 =>
      if c = '"' then some (.ofList out.reverse, cs)
      else if c = '\\' then
        match escape? cs with
        | some (e, used) => basicFrom (e :: out) used cs
        | none => none
      else if isPlain c then basicFrom (c :: out) 0 cs
      else none

/-- A literal text on one line, after its opening quote. -/
def literalFrom (out : List Char) : List Char → Rest String
  | [] => none
  | c :: cs =>
    if c = '\'' then some (.ofList out.reverse, cs)
    else if isPlain c then literalFrom (c :: out) cs
    else none

/-- How many quotes stand in front; a text over several lines ends with three, and up to two more before them are
its own. -/
def quotes (q : Char) (cs : List Char) : Nat := min 5 (cs.takeWhile (· == q)).length

/-- Blanks, then the end of the line, then all that is blank: what a backslash at the end of a line takes away. -/
def fold? (cs : List Char) : Option Nat :=
  let blanks := cs.takeWhile fun c => c == ' ' || c == '\t'
  match cs.drop blanks.length with
  | '\n' :: _ | '\r' :: '\n' :: _ =>
    some (cs.takeWhile fun c => c == ' ' || c == '\t' || c == '\n' || c == '\r').length
  | _ => none

/-- A basic text over several lines. -/
def blockFrom (out : List Char) (skip : Nat) : List Char → Rest String
  | [] => none
  | c :: cs =>
    match skip with
    | k + 1 => blockFrom out k cs
    | 0 =>
      if c = '"' then
        let n := quotes '"' (c :: cs)
        if 3 ≤ n then some (.ofList (List.replicate (n - 3) '"' ++ out).reverse, (c :: cs).drop n)
        else blockFrom ('"' :: out) 0 cs
      else if c = '\\' then
        match fold? cs with
        | some used => blockFrom out used cs
        | none =>
          match escape? cs with
          | some (e, used) => blockFrom (e :: out) used cs
          | none => none
      else if isPlain c ∨ c = '\n' ∨ (c = '\r' ∧ cs.head? = some '\n') then blockFrom (c :: out) 0 cs
      else none

/-- A literal text over several lines. -/
def rawFrom (out : List Char) : List Char → Rest String
  | [] => none
  | c :: cs =>
    if 3 ≤ quotes '\'' (c :: cs) then
      let n := quotes '\'' (c :: cs)
      some (.ofList (List.replicate (n - 3) '\'' ++ out).reverse, (c :: cs).drop n)
    else if isPlain c ∨ c = '\n' ∨ (c = '\r' ∧ cs.head? = some '\n') then rawFrom (c :: out) cs
    else none

/-- The end of the line that a text over several lines may begin with is not part of it. -/
def dropLineEnd : List Char → List Char
  | '\n' :: cs => cs
  | '\r' :: '\n' :: cs => cs
  | cs => cs

end CodeIndex.Toml
