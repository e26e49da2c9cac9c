/-!
Sets of code points, kept as the sorted points at which membership flips. A point belongs to the set when
an odd number of flips lies at or below it, so a look-up is one bisection.
-/

namespace CodeIndex.Text

structure CodeSet where
  flips : Array Nat

namespace CodeSet

/-- The number of flips at or below `n`, given that all flips before `lo` are and none from `hi` on is. -/
def rank (s : CodeSet) (n lo hi : Nat) : Nat :=
  if lo < hi then
    if s.flips.getD ((lo + hi) / 2) 0 ≤ n then rank s n ((lo + hi) / 2 + 1) hi
    else rank s n lo ((lo + hi) / 2)
  else lo
termination_by hi - lo

def contains (s : CodeSet) (c : Char) : Bool :=
  s.rank c.toNat 0 s.flips.size % 2 == 1

end CodeSet

end CodeIndex.Text
