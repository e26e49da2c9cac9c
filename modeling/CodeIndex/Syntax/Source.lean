/-!
A source text with the places where its lines start, so that byte offsets can be turned into rows and columns.
-/

namespace CodeIndex.Syntax

structure Source where
  text : String
  /-- Byte offsets at which lines start, in ascending order; the first is zero. -/
  starts : Array Nat

namespace Source

/-- The offset just after each line feed. -/
def lineStarts (text : String) : Array Nat :=
  (text.toList.foldl (fun (acc : Array Nat × Nat) c =>
    let next := acc.2 + c.utf8Size
    (if c = '\n' then acc.1.push next else acc.1, next)) (#[0], 0)).1

def ofString (text : String) : Source := ⟨text, lineStarts text⟩

/-- The number of line starts at or below `offset`, given that all before `lo` are and none from `hi` on is. -/
def startsBelow (starts : Array Nat) (offset lo hi : Nat) : Nat :=
  if lo < hi then
    if starts.getD ((lo + hi) / 2) 0 ≤ offset then startsBelow starts offset ((lo + hi) / 2 + 1) hi
    else startsBelow starts offset lo ((lo + hi) / 2)
  else lo
termination_by hi - lo

/-- The row of an offset, counted from zero: how many line feeds stand before it. -/
def row (s : Source) (offset : Nat) : Nat := startsBelow s.starts offset 0 s.starts.size - 1

/-- Bytes since the last line feed. -/
def column (s : Source) (offset : Nat) : Nat := offset - s.starts.getD (s.row offset) 0

/-- The text between two byte offsets. -/
def slice (s : Source) (start stop : Nat) : String := String.Pos.Raw.extract s.text ⟨start⟩ ⟨stop⟩

end Source

end CodeIndex.Syntax
