/-!
Whole numbers in decimal digits.
-/

namespace CodeIndex.Number

/-- The number below `limit` that a text writes in ASCII digits, with a plus before them or without. -/
def ofText? (limit : Nat) (text : String) : Option Nat :=
  let digits := match text.toList with
    | '+' :: cs => cs
    | cs => cs
  if digits.isEmpty ∨ !digits.all Char.isDigit then none
  else
    let n := digits.foldl (fun n c => n * 10 + (c.toNat - '0'.toNat)) 0
    if n < limit then some n else none

end CodeIndex.Number
