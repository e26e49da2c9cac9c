/-!
Globs over paths. A glob is matched against the bytes of a whole path: a wildcard stands for bytes other than the
slash, and a doubled star for whole components.
-/

namespace CodeIndex.Glob

inductive Token where
  | literal (c : Char)
  /-- One byte that is no slash. -/
  | any
  /-- Bytes without a slash. -/
  | star
  /-- Any components, at the front. -/
  | leading
  /-- All below, at the end. -/
  | trailing
  /-- A slash, with any components after it. -/
  | between
  /-- One byte of the ranges, or one that is in none of them. -/
  | set (negated : Bool) (ranges : List (Char × Char))
  /-- One of some globs; of none of them, nothing at all. -/
  | oneOf (branches : List (List Token))
  deriving Repr

abbrev Bytes := List UInt8

def slash : UInt8 := '/'.toUInt8

/-- A range between characters of several bytes covers the bytes from the last of the one to the first of the
other, and their other bytes for themselves. -/
def inRange (r : Char × Char) (b : UInt8) : Bool :=
  let low := String.utf8EncodeChar r.1
  if r.1 = r.2 then low.contains b
  else
    let high := String.utf8EncodeChar r.2
    low.dropLast.contains b || (low.getLast?.any (· ≤ b) && high.head?.any (b ≤ ·)) || (high.drop 1).contains b

/-- What follows each slash. -/
def belowSlashes : Bytes → List Bytes
  | [] => []
  | b :: s => if b = slash then s :: belowSlashes s else belowSlashes s

/-- All that may be left of a text. -/
def suffixes : Bytes → List Bytes
  | [] => [[]]
  | b :: s => (b :: s) :: suffixes s

/-- What is left after zero and more bytes other than the slash. -/
def withinComponent : Bytes → List Bytes
  | [] => [[]]
  | b :: s => if b = slash then [b :: s] else (b :: s) :: withinComponent s

mutual

/-- What may be left of a path after a token has taken its part from the front. -/
def Token.rests : Token → Bytes → List Bytes
  | .literal c, s =>
    let cs := String.utf8EncodeChar c
    if cs.isPrefixOf s then [s.drop cs.length] else []
  | .any, s =>
    match s with
    | b :: s => if b = slash then [] else [s]
    | [] => []
  | .star, s => withinComponent s
  | .leading, s => s :: belowSlashes s
  | .trailing, s =>
    match s with
    | b :: s => if b = slash then suffixes s else []
    | [] => []
  | .between, s =>
    match s with
    | b :: s => if b = slash then s :: belowSlashes s else []
    | [] => []
  | .set negated ranges, s =>
    match s with
    | b :: s => if ranges.any (inRange · b) != negated then [s] else []
    | [] => []
  | .oneOf branches, s => if branches.isEmpty then [s] else restsOfBranches branches s

/-- What may be left after several tokens; `ss` is what was left before them. -/
def restsOf : List Token → List Bytes → List Bytes
  | [], ss => ss
  | t :: ts, ss => restsOf ts (ss.flatMap t.rests).eraseDups

def restsOfBranches : List (List Token) → Bytes → List Bytes
  | [], _ => []
  | b :: bs, s => restsOf b [s] ++ restsOfBranches bs s

end

/-- A doubled star on its own matches everything. -/
def matchesAll : List Token → Bool
  | [.leading] => true
  | _ => false

/-- Whether the tokens can take all of a path. -/
def Matches (tokens : List Token) (path : String) : Bool :=
  matchesAll tokens || (restsOf tokens [path.toUTF8.toList]).any (·.isEmpty)

end CodeIndex.Glob
