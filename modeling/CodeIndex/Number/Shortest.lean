/-!
The shortest decimal of a double. A decimal reads back as a double if it lies among the reals that round to it; the
ends of that interval count if the double's significand is even. The fewest digits that reach into the interval are
taken, and of two such decimals the nearer one.
-/

namespace CodeIndex.Number

/-- The real `unit · 4 · significand`, with the reals that round to it: from `4 · significand - below` units to two
units above. -/
structure Neighbourhood where
  significand : Nat
  below : Nat
  /-- A unit is `num / den`. -/
  num : Nat
  den : Nat
  deriving DecidableEq, Repr

namespace Neighbourhood

/-- The neighbourhood of a positive double, from its bits. -/
def ofBits (bits : Nat) : Neighbourhood :=
  let exponent := bits / Nat.pow 2 52 % Nat.pow 2 11
  let fraction := bits % Nat.pow 2 52
  let significand := if exponent = 0 then fraction else fraction + Nat.pow 2 52
  let below := if fraction = 0 ∧ 1 < exponent then 1 else 2
  let shift := max 1 exponent
  if 1077 ≤ shift then ⟨significand, below, Nat.pow 2 (shift - 1077), 1⟩ else ⟨significand, below, 1, Nat.pow 2 (1077 - shift)⟩

/-- Whether `k` units, given as a fraction, round to the double. -/
def holds (h : Neighbourhood) (num den : Nat) : Bool :=
  let low := (4 * h.significand - h.below) * den
  let high := (4 * h.significand + 2) * den
  if h.significand % 2 = 0 then decide (low ≤ num ∧ num ≤ high) else decide (low < num ∧ num < high)

/-- The power of ten just above the double. -/
def magnitude (h : Neighbourhood) : Int :=
  ((toString (4 * h.significand * h.num * Nat.pow 10 400 / h.den)).length : Int) - 400

/-- The decimal of `count` digits that is nearest to the double, if it reads back: its digits and its exponent. -/
def decimal? (h : Neighbourhood) (count : Nat) : Option (Nat × Int) :=
  let exponent := h.magnitude - count
  let (up, down) := (Nat.pow 10 exponent.toNat, Nat.pow 10 (-exponent).toNat)
  let num := 4 * h.significand * h.num * down
  let den := h.den * up
  let floor := num / den
  let inUnits (digits : Nat) := h.holds (digits * up * h.den) (down * h.num)
  let candidates := if 2 * (num % den) ≤ den then [floor, floor + 1] else [floor + 1, floor]
  (candidates.find? inUnits).map fun digits =>
    if digits = Nat.pow 10 count then (Nat.pow 10 (count - 1), exponent + 1) else (digits, exponent)

/-- The shortest decimal; seventeen digits are always enough. -/
def shortest (h : Neighbourhood) : Nat × Int := ((List.range 17).findSome? fun n => h.decimal? (n + 1)).getD (0, 0)

end Neighbourhood

end CodeIndex.Number
