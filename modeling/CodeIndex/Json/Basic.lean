import CodeIndex.Number.Shortest
import CodeIndex.Number.Single

/-!
JSON values. A number keeps the decimal that was written, with its sign and with whether it was written as a
whole number; an object keeps its members in the order written, repeated names included.
-/

namespace CodeIndex

/-- The number `±digits · 10 ^ exponent`. -/
structure Json.Decimal where
  negative : Bool
  digits : Nat
  exponent : Int
  /-- Written with neither a point nor an exponent. -/
  whole : Bool
  deriving DecidableEq, Repr

inductive Json where
  | null
  | bool (b : Bool)
  | num (d : Json.Decimal)
  | str (s : String)
  | arr (items : List Json)
  | obj (members : List (String × Json))

namespace Json

instance : Inhabited Json := ⟨null⟩

def ofNat (n : Nat) : Json := num ⟨false, n, 0, true⟩

def ofOption (f : α → Json) : Option α → Json
  | some a => f a
  | none => null

/-- A single as the double that it is, with the fewest digits that read back; what is not finite is null. -/
def ofSingle (x : Number.Single) : Json :=
  let bits := x.value.toFloat.toBits.toNat
  let (digits, exponent) := (Number.Neighbourhood.ofBits (bits % Nat.pow 2 63)).shortest
  if !x.isFinite then null
  else if bits % Nat.pow 2 63 = 0 then num ⟨Nat.pow 2 63 ≤ bits, 0, 0, false⟩
  else num ⟨Nat.pow 2 63 ≤ bits, digits, exponent, false⟩

/-- The first member of that name; nothing if the value is no object. -/
def get? (name : String) : Json → Option Json
  | obj members => (members.find? (·.1 == name)).map (·.2)
  | _ => none

namespace Decimal

/-- The power of ten that a double holds for `n`, infinite beyond its range. -/
def powerOfTen (n : Nat) : Float := Float.ofScientific 1 false n

/-- Multiplies or divides by a power of ten; a power too large to divide by is taken in steps of 308. -/
def scale (fuel : Nat) (f : Float) (exponent : Int) : Option Float :=
  match fuel with
  | 0 => none
  | fuel + 1 =>
    if exponent.natAbs ≤ 308 then
      if 0 ≤ exponent then
        let r := f * powerOfTen exponent.natAbs
        if r.isInf then none else some r
      else some (f / powerOfTen exponent.natAbs)
    else if f == 0 then some f
    else if 0 ≤ exponent then none
    else scale fuel (f / powerOfTen 308) (exponent + 308)

/-- The decimal as a double: its leading digits that fit 64 bits, scaled by a power of ten in one step. -/
def toFloat? (d : Decimal) : Option Float :=
  let text := toString d.digits
  let extra := if d.digits < Nat.pow 2 64 then 0 else if (text.take 20).toNat?.getD 0 < Nat.pow 2 64 then text.length - 20 else
    text.length - 19
  let f := Float.ofNat (d.digits / Nat.pow 10 extra)
  (scale 8 f (d.exponent + extra)).map fun r => if d.negative then -r else r

/-- The decimal as a single, through the double. -/
def toSingle? (d : Decimal) : Option Number.Single := d.toFloat?.map .ofFloat

/-- The whole number written, if it was written as one and is not negative. -/
def toNat? (d : Decimal) : Option Nat := if d.whole && !d.negative then some d.digits else none

end Decimal

end Json

end CodeIndex
