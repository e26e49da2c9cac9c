import CodeIndex.Number.Single

/-!
Numbers written with a fixed count of decimal places. The exact value is rounded to the nearest such decimal,
and a tie goes to the even last digit.
-/

namespace CodeIndex.Number

/-- The nearest integer to `num / den`; a tie goes to the even one. -/
def roundHalfEven (num den : Nat) : Nat :=
  let q := num / den
  let r := num % den
  if 2 * r < den then q else if den < 2 * r then q + 1 else q + q % 2

/-- Digits of `n` with the point `places` digits from the right, at least one digit before it. -/
def placePoint (places n : Nat) : String :=
  let whole := toString (n / Nat.pow 10 places)
  if places = 0 then whole
  else
    let digits := Nat.toDigits 10 (n % Nat.pow 10 places)
    whole ++ "." ++ .ofList (List.replicate (places - digits.length) '0' ++ digits)

namespace Single

/-- A finite number's magnitude as a fraction of integers. -/
def magnitude (x : Single) : Nat × Nat :=
  let n := x.bits.toNat % Nat.pow 2 31
  let exponent := n / Nat.pow 2 23
  let mantissa := n % Nat.pow 2 23
  if exponent = 0 then (mantissa, Nat.pow 2 149)
  else if 150 ≤ exponent then ((mantissa + Nat.pow 2 23) * Nat.pow 2 (exponent - 150), 1)
  else (mantissa + Nat.pow 2 23, Nat.pow 2 (150 - exponent))

/-- The number with `places` decimals; the sign of a negative zero is kept. -/
def fixed (places : Nat) (x : Single) : String :=
  let sign := if 0x80000000 ≤ x.bits then "-" else ""
  if x.isNaN then "NaN"
  else if !x.isFinite then sign ++ "inf"
  else
    let (num, den) := x.magnitude
    sign ++ placePoint places (roundHalfEven (num * Nat.pow 10 places) den)

end Single

end CodeIndex.Number
