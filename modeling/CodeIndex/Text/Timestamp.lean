/-!
Points of time as text: the date and the time of day at the meridian, and as much of a second's fraction as there is,
in groups of three digits.
-/

namespace CodeIndex.Text.Timestamp

/-- A day by its number since the first of January 1970, as year, month and day. Years begin in March here, so that the
day that comes and goes is the last. -/
def civil (days : Int) : Int × Nat × Nat :=
  let shifted := days + 719468
  let era := shifted.fdiv 146097
  let day := (shifted - era * 146097).toNat
  let year := (day - day / 1460 + day / 36524 - day / 146096) / 365
  let dayOfYear := day - (365 * year + year / 4 - year / 100)
  let shiftedMonth := (5 * dayOfYear + 2) / 153
  let month := if shiftedMonth < 10 then shiftedMonth + 3 else shiftedMonth - 9
  (era * 400 + year + (if month ≤ 2 then 1 else 0), month, dayOfYear - (153 * shiftedMonth + 2) / 5 + 1)

def padded (width n : Nat) : String :=
  let digits := Nat.toDigits 10 n
  .ofList (List.replicate (width - digits.length) '0' ++ digits)

def fraction (nanos : Nat) : String :=
  if nanos = 0 then ""
  else if nanos % 1000000 = 0 then "." ++ padded 3 (nanos / 1000000)
  else if nanos % 1000 = 0 then "." ++ padded 6 (nanos / 1000)
  else "." ++ padded 9 nanos

/-- Seconds since the start of 1970, with a fraction in nanoseconds. -/
def render (seconds : Int) (nanos : Nat) : String :=
  let (year, month, day) := civil (seconds.fdiv 86400)
  let time := (seconds.fmod 86400).toNat
  padded 4 year.toNat ++ "-" ++ padded 2 month ++ "-" ++ padded 2 day ++ "T" ++ padded 2 (time / 3600) ++ ":" ++
    padded 2 (time / 60 % 60) ++ ":" ++ padded 2 (time % 60) ++ fraction nanos ++ "+00:00"

example : render 0 0 = "1970-01-01T00:00:00+00:00" := by decide +kernel

example : render 951782399 5000000 = "2000-02-28T23:59:59.005+00:00" := by decide +kernel

end CodeIndex.Text.Timestamp
