/-!
Looking for one text in another: whether it occurs, and how often when occurrences may not overlap.
-/

namespace CodeIndex.Text

/-- Whether `p` stands somewhere in `t`; the empty text stands everywhere. -/
def occurs (p : List Char) : List Char → Bool
  | [] => p.isEmpty
  | c :: t => p.isPrefixOf (c :: t) || occurs p t

/-- Counts occurrences from left to right; `skip` characters still belong to the last one found. -/
def countFrom (p : List Char) (skip found : Nat) : List Char → Nat
  | [] => found
  | c :: t =>
    match skip with
    | k + 1 => countFrom p k found t
    | 0 => if p.isPrefixOf (c :: t) then countFrom p (p.length - 1) (found + 1) t else countFrom p 0 found t

/-- How often the non-empty text `p` stands in `t` without overlap. -/
def count (p t : List Char) : Nat := countFrom p 0 0 t

/-- What follows `p` at the start of `s`, if `s` starts so. -/
def dropPrefix? (p s : String) : Option String :=
  if p.toList.isPrefixOf s.toList then some (.ofList (s.toList.drop p.length)) else none

/-- What precedes `p` at the end of `s`, if `s` ends so. -/
def dropSuffix? (p s : String) : Option String :=
  if p.toList.isSuffixOf s.toList then some (.ofList (s.toList.take (s.length - p.length))) else none

end CodeIndex.Text
