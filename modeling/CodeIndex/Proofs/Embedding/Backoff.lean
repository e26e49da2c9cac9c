import CodeIndex.Embedding.Retry
import Mathlib.Data.Nat.Basic
import Mathlib.Order.MinMax
import Mathlib.Order.Monotone.Basic

/-!
How the wait between two tries grows, and that it can be computed on machine words. There a duration is two words,
one of seconds and one of nanoseconds; what no duration can hold becomes the longest one. No word wraps around on the
way, whatever the policy and however late the try, and the outcome is the delay of the policy.
-/

namespace CodeIndex.Embedding

/-- A time: whole seconds, and the nanoseconds of a second begun. -/
structure Duration where
  secs : UInt64
  nanos : UInt32
  nanos_lt : nanos.toNat < 1000000000

/-- The product of two words, if a word holds it. -/
def mulWord? (a b : UInt64) : Option UInt64 := if a.toNat * b.toNat < UInt64.size then some (a * b) else none

/-- The sum of two words, if a word holds it. -/
def addWord? (a b : UInt64) : Option UInt64 := if a.toNat + b.toNat < UInt64.size then some (a + b) else none

/-- A word moved to the left by less than its width. -/
def shiftWord? (a places : UInt32) : Option UInt32 := if places < 32 then some (a <<< places) else none

/-- A product and what is added to it, if a word holds either. -/
def mulAddWord? (a b c : UInt64) : Option UInt64 := do addWord? (← mulWord? a b) c

theorem toNat_mul_of_lt {a b : UInt64} (h : a.toNat * b.toNat < UInt64.size) : (a * b).toNat = a.toNat * b.toNat := by
  rw [UInt64.toNat_mul]
  exact Nat.mod_eq_of_lt h

theorem mulAddWord?_of_lt {a b c : UInt64} (h : a.toNat * b.toNat + c.toNat < UInt64.size) :
    ∃ w, mulAddWord? a b c = some w ∧ w.toNat = a.toNat * b.toNat + c.toNat := by
  have hlt : a.toNat * b.toNat < UInt64.size := Nat.lt_of_le_of_lt (Nat.le_add_right ..) h
  have hmul := toNat_mul_of_lt hlt
  refine ⟨a * b + c, ?_, ?_⟩
  · rw [mulAddWord?, mulWord?, if_pos hlt]
    exact if_pos (hmul ▸ h)
  · rw [UInt64.toNat_add, hmul]
    exact Nat.mod_eq_of_lt h

theorem mulAddWord?_of_le {a b c : UInt64} (h : UInt64.size ≤ a.toNat * b.toNat + c.toNat) :
    mulAddWord? a b c = none := by
  unfold mulAddWord? mulWord?
  by_cases hlt : a.toNat * b.toNat < UInt64.size
  · rw [if_pos hlt]
    exact if_neg (toNat_mul_of_lt hlt ▸ Nat.not_lt.2 h)
  · rw [if_neg hlt]
    rfl

namespace Duration

/-- All of a duration in nanoseconds. -/
def total (d : Duration) : Nat := d.secs.toNat * 1000000000 + d.nanos.toNat

def longest : Duration := ⟨0xffffffffffffffff, 999999999, by decide⟩

/-- Seconds decide, and between equal seconds nanoseconds. -/
def isShorter (d e : Duration) : Bool := d.secs < e.secs || d.secs == e.secs && d.nanos < e.nanos

def shorter (d e : Duration) : Duration := if e.isShorter d then e else d

theorem toNat_mod_lt (w : UInt64) : (w % 1000000000).toUInt32.toNat < 1000000000 := by
  rw [UInt64.toNat_toUInt32, UInt64.toNat_mod]
  exact Nat.lt_of_le_of_lt (Nat.mod_le ..) (Nat.mod_lt w.toNat (by decide))

/-- A duration so many times over, if there is such a duration. The nanoseconds are multiplied in a word for seconds,
which holds their product, and the seconds in it are carried. -/
def times? (d : Duration) (k : UInt32) : Option Duration := do
  let nanos := d.nanos.toUInt64 * k.toUInt64
  let secs ← mulAddWord? d.secs k.toUInt64 (nanos / 1000000000)
  return ⟨secs, (nanos % 1000000000).toUInt32, toNat_mod_lt nanos⟩

def timesAtMost (d : Duration) (k : UInt32) : Duration := (d.times? k).getD longest

end Duration

/-- The growth of the delay as a word. -/
def factorWord (attempt : UInt32) : UInt32 := (shiftWord? 1 attempt).getD 0xffffffff

/-- The wait after try number `attempt`, counted from zero, on machine words. -/
def wait (base cap : Duration) (attempt : UInt32) (hint : Option Duration) : Duration :=
  (hint.getD (base.timesAtMost (factorWord attempt))).shorter cap

namespace Duration

theorem total_longest : longest.total = 0xffffffffffffffff * 1000000000 + 999999999 := rfl

theorem total_le_longest (d : Duration) : d.total ≤ longest.total := by
  have hs := d.secs.toNat_lt
  have hn := d.nanos_lt
  rw [total_longest, total]
  omega

theorem isShorter_iff (d e : Duration) : d.isShorter e = true ↔ d.total < e.total := by
  have hd := d.nanos_lt
  have he := e.nanos_lt
  simp only [isShorter, Bool.or_eq_true, Bool.and_eq_true, decide_eq_true_eq, beq_iff_eq, UInt64.lt_iff_toNat_lt,
    UInt32.lt_iff_toNat_lt, ← UInt64.toNat_inj, total]
  omega

theorem total_shorter (d e : Duration) : (d.shorter e).total = min d.total e.total := by
  unfold shorter
  split
  · rename_i h
    have := (isShorter_iff e d).1 h
    omega
  · rename_i h
    have := mt (isShorter_iff e d).2 h
    omega

/-- The product of the nanoseconds does not wrap around. -/
theorem toNat_nanos_mul (d : Duration) (k : UInt32) :
    (d.nanos.toUInt64 * k.toUInt64).toNat = d.nanos.toNat * k.toNat := by
  rw [UInt64.toNat_mul, UInt32.toNat_toUInt64, UInt32.toNat_toUInt64]
  refine Nat.mod_eq_of_lt ?_
  calc d.nanos.toNat * k.toNat < 2 ^ 32 * 2 ^ 32 := Nat.mul_lt_mul'' d.nanos.toNat_lt k.toNat_lt
    _ = 2 ^ 64 := by decide

/-- Seconds are carried from the nanoseconds. -/
theorem total_mul (d : Duration) (k : Nat) :
    d.total * k = (d.secs.toNat * k + d.nanos.toNat * k / 1000000000) * 1000000000 +
      d.nanos.toNat * k % 1000000000 := by
  rw [total, Nat.add_mul, Nat.add_mul, Nat.add_assoc, Nat.div_add_mod', Nat.mul_right_comm]

/-- Seconds in the product of the nanoseconds. -/
theorem toNat_carry (d : Duration) (k : UInt32) :
    (d.nanos.toUInt64 * k.toUInt64 / 1000000000).toNat = d.nanos.toNat * k.toNat / 1000000000 := by
  rw [UInt64.toNat_div, toNat_nanos_mul]
  rfl

/-- What a second does not hold of the product. -/
theorem toNat_rest (d : Duration) (k : UInt32) :
    (d.nanos.toUInt64 * k.toUInt64 % 1000000000).toUInt32.toNat = d.nanos.toNat * k.toNat % 1000000000 := by
  rw [UInt64.toNat_toUInt32, UInt64.toNat_mod, toNat_nanos_mul]
  exact Nat.mod_eq_of_lt (Nat.lt_trans (Nat.mod_lt (d.nanos.toNat * k.toNat) (by decide)) (by decide))

theorem times?_of_le {d : Duration} {k : UInt32} (h : d.total * k.toNat ≤ longest.total) :
    ∃ e, d.times? k = some e ∧ e.total = d.total * k.toNat := by
  rw [total_mul, total_longest] at h
  have hfits : d.secs.toNat * k.toUInt64.toNat + (d.nanos.toUInt64 * k.toUInt64 / 1000000000).toNat < UInt64.size := by
    rw [UInt32.toNat_toUInt64, toNat_carry, UInt64.size]
    omega
  obtain ⟨w, hw, hsecs⟩ := mulAddWord?_of_lt hfits
  refine ⟨_, by rw [times?, hw]; rfl, ?_⟩
  rw [total_mul, total, hsecs, toNat_carry, toNat_rest, UInt32.toNat_toUInt64]

theorem times?_of_lt {d : Duration} {k : UInt32} (h : longest.total < d.total * k.toNat) : d.times? k = none := by
  rw [total_mul, total_longest] at h
  have hover : UInt64.size ≤ d.secs.toNat * k.toUInt64.toNat + (d.nanos.toUInt64 * k.toUInt64 / 1000000000).toNat := by
    rw [UInt32.toNat_toUInt64, toNat_carry, UInt64.size]
    omega
  rw [times?, mulAddWord?_of_le hover]
  rfl

theorem total_timesAtMost (d : Duration) (k : UInt32) :
    (d.timesAtMost k).total = min (d.total * k.toNat) longest.total := by
  unfold timesAtMost
  by_cases h : d.total * k.toNat ≤ longest.total
  · obtain ⟨e, he, htotal⟩ := times?_of_le h
    rw [he, Option.getD_some, htotal, Nat.min_eq_left h]
  · rw [times?_of_lt (Nat.lt_of_not_le h), Option.getD_none, Nat.min_eq_right (Nat.le_of_not_le h)]

end Duration

theorem toNat_factorWord (attempt : UInt32) : (factorWord attempt).toNat = RetryPolicy.factor attempt.toNat := by
  unfold factorWord shiftWord? RetryPolicy.factor
  by_cases h : attempt < 32
  · have hn : attempt.toNat < 32 := UInt32.lt_iff_toNat_lt.1 h
    rw [if_pos h, if_pos hn, Option.getD_some, UInt32.toNat_shiftLeft, Nat.mod_eq_of_lt hn, Nat.shiftLeft_eq]
    exact (congrArg (· % 2 ^ 32) (Nat.one_mul _)).trans (Nat.mod_eq_of_lt (Nat.pow_lt_pow_right (by decide) hn))
  · have hn : ¬ attempt.toNat < 32 := fun hn => h (UInt32.lt_iff_toNat_lt.2 hn)
    rw [if_neg h, if_neg hn]
    rfl

namespace RetryPolicy

variable {p : RetryPolicy}

theorem one_le_factor (attempt : Nat) : 1 ≤ factor attempt := by
  unfold factor
  split
  · exact Nat.one_le_two_pow
  · decide

/-- The growth does not fall where it stops doubling. -/
theorem factor_monotone : Monotone factor := by
  intro a b h
  unfold factor
  by_cases hb : b < 32
  · rw [if_pos (Nat.lt_of_le_of_lt h hb), if_pos hb]
    exact Nat.pow_le_pow_right (by decide) h
  · rw [if_neg hb]
    split
    · rename_i ha
      exact Nat.le_sub_one_of_lt (Nat.pow_lt_pow_right (by decide) ha)
    · exact Nat.le_refl _

theorem factor_succ {attempt : Nat} (h : attempt < 31) : factor (attempt + 1) = 2 * factor attempt := by
  have hn : attempt < 32 := Nat.lt_succ_of_lt h
  rw [factor, factor, if_pos (Nat.succ_lt_succ h), if_pos hn]
  exact Nat.pow_succ'

theorem delay_none (p : RetryPolicy) (attempt : Nat) :
    p.delay attempt none = min (p.baseMs * factor attempt) p.maxMs :=
  rfl

theorem delay_doubles {attempt : Nat} (ha : attempt < 31) (h : p.delay (attempt + 1) none < p.maxMs) :
    p.delay (attempt + 1) none = 2 * p.delay attempt none := by
  rw [delay_none, factor_succ ha] at h ⊢
  rw [delay_none]
  have hdouble : p.baseMs * (2 * factor attempt) = 2 * (p.baseMs * factor attempt) := Nat.mul_left_comm ..
  omega

/-- The words of the wait tell the delay of the policy, in whatever unit its delays are. -/
theorem total_wait {unit : Nat} {base cap : Duration} {hint : Option Duration} {hintMs : Option Nat}
    (hbase : base.total = unit * p.baseMs) (hcap : cap.total = unit * p.maxMs)
    (hhint : hint.map Duration.total = hintMs.map (unit * ·)) (attempt : UInt32) :
    (wait base cap attempt hint).total = unit * p.delay attempt.toNat hintMs := by
  unfold wait delay
  rw [Duration.total_shorter, hcap, ← Nat.mul_min_mul_left]
  cases hint with
  | none =>
    cases hintMs with
    | none =>
      have hle := cap.total_le_longest
      simp only [Option.getD_none]
      rw [Duration.total_timesAtMost, toNat_factorWord, hbase, Nat.mul_assoc]
      omega
    | some h => cases hhint
  | some d =>
    cases hintMs with
    | none => cases hhint
    | some h => rw [Option.getD_some, Option.getD_some, Option.some.inj hhint]

/-- **Backoff**: without a hint the wait is at least the smaller of base and maximum and at most the maximum, it never
falls from one try to the next, and it doubles until it comes to the maximum. A hint is capped at the maximum. On
machine words the wait is the same, so no word wraps around: for a policy in nanoseconds, where `unit` is one and base,
maximum and hint are any durations, and for one in milliseconds. -/
theorem delay_grows (p : RetryPolicy) :
    (∀ a, min p.baseMs p.maxMs ≤ p.delay a none ∧ p.delay a none ≤ p.maxMs) ∧
      Monotone (p.delay · none) ∧
      (∀ a < 31, p.delay (a + 1) none < p.maxMs → p.delay (a + 1) none = 2 * p.delay a none) ∧
      (∀ a hintMs, p.delay a (some hintMs) = min hintMs p.maxMs) ∧
      ∀ (unit : Nat) (base cap : Duration) (hint : Option Duration) (hintMs : Option Nat),
        base.total = unit * p.baseMs → cap.total = unit * p.maxMs →
        hint.map Duration.total = hintMs.map (unit * ·) →
        ∀ a : UInt32, (wait base cap a hint).total = unit * p.delay a.toNat hintMs := by
  refine ⟨fun a => ⟨?_, Nat.min_le_right ..⟩, fun a b h => ?_, fun a => delay_doubles, fun a hintMs => rfl,
    fun unit base cap hint hintMs => total_wait⟩
  · have hbase : p.baseMs ≤ p.baseMs * factor a := Nat.le_mul_of_pos_right _ (one_le_factor a)
    exact min_le_min_right _ hbase
  · exact min_le_min_right _ (Nat.mul_le_mul_left _ (factor_monotone h))

/-- One second, doubled up to half a minute. -/
theorem delay_grows_seconds :
    let p : RetryPolicy := ⟨5, 1000, 30000⟩
    p.delay 4 none = 2 * p.delay 3 none ∧ p.delay 31 none ≤ p.delay 40 none ∧ p.delay 40 none ≤ 30000 ∧
      (wait ⟨1, 0, by decide⟩ ⟨30, 0, by decide⟩ 40 none).total = 1000000 * p.delay 40 none := by
  intro p
  obtain ⟨hbounds, hmono, hdouble, -, hwords⟩ := delay_grows p
  exact ⟨hdouble 3 (by decide) (by decide), hmono (show 31 ≤ 40 by decide), (hbounds 40).2,
    hwords 1000000 _ _ none none (by decide) (by decide) rfl 40⟩

end RetryPolicy

end CodeIndex.Embedding
