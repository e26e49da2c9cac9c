import CodeIndex.Embedding.Retry
import Mathlib.Data.ENat.Lattice

/-!
How often a call is tried. It is tried again after every transient failure, with one wait in between, as long as tries
are left; the first outcome of another kind is the last one, and so is that of the last try.
-/

namespace CodeIndex.Embedding

variable {σ α : Type} {outcomes : Nat → Except EmbedError α}

/-- A success, or a failure that is not transient. -/
def isFinal : Except EmbedError α → Bool
  | .ok _ => true
  | .error e => !e.isTransient

/-- How long the provider asks to wait. -/
def hintMs? : Except EmbedError α → Option Nat
  | .ok _ => none
  | .error e => e.retryAfterMs?

open Classical in
/-- The place of the first final outcome, counted from one. -/
noncomputable def firstFinal (outcomes : Nat → Except EmbedError α) : ℕ∞ :=
  if h : ∃ i, isFinal (outcomes i) = true then (Nat.find h + 1 : Nat) else ⊤

theorem lt_firstFinal_iff {n : Nat} : (n : ℕ∞) < firstFinal outcomes ↔ ∀ i < n, isFinal (outcomes i) = false := by
  unfold firstFinal
  split
  · rename_i h
    rw [Nat.cast_lt, Nat.lt_succ_iff, Nat.le_find_iff]
    simp
  · rename_i h
    simp only [not_exists, Bool.not_eq_true] at h
    exact ⟨fun _ i _ => h i, fun _ => ENat.natCast_lt_top n⟩

/-- What stands at the place of the first final outcome is final. -/
theorem isFinal_of_firstFinal {n : Nat} (h : firstFinal outcomes = (n + 1 : Nat)) : isFinal (outcomes n) = true := by
  have hn : ¬((n + 1 : Nat) : ℕ∞) < firstFinal outcomes := by
    rw [h]
    exact lt_irrefl _
  have hlt : (n : ℕ∞) < firstFinal outcomes := by
    rw [h, Nat.cast_lt]
    exact Nat.lt_succ_self n
  rw [lt_firstFinal_iff] at hn hlt
  by_contra hfinal
  refine hn fun i hi => ?_
  obtain hi | rfl := Nat.lt_succ_iff_lt_or_eq.1 hi
  · exact hlt i hi
  · exact Bool.not_eq_true _ ▸ hfinal

namespace RetryPolicy

/-- The caller after so many calls. -/
def called (call : σ → σ × Except EmbedError α) (s : σ) : Nat → σ
  | 0 => s
  | n + 1 => (call (called call s n)).1

/-- The outcome of the call that comes after so many others. -/
def outcomeAt (call : σ → σ × Except EmbedError α) (s : σ) (n : Nat) : Except EmbedError α :=
  (call (called call s n)).2

/-- The wait after the outcome of a call, the calls counted from zero. -/
def waitAfter (p : RetryPolicy) (call : σ → σ × Except EmbedError α) (s : σ) (n : Nat) : Nat :=
  p.delay n (hintMs? (outcomeAt call s n))

variable {p : RetryPolicy} {call : σ → σ × Except EmbedError α} {s : σ}

theorem again?_eq (p : RetryPolicy) (attempt left : Nat) (r : Except EmbedError α) :
    p.again? attempt left r = if isFinal r = false ∧ 0 < left then some (p.delay attempt (hintMs? r)) else none := by
  cases r with
  | ok _ => rfl
  | error e => simp [again?, isFinal, hintMs?]

/-- Nothing follows a final outcome, or the last try. -/
theorem tryFrom_last {waits : List Nat} {left : Nat} (h : left = 0 ∨ isFinal (call s).2 = true) :
    p.tryFrom call waits s left = ⟨(call s).1, waits.reverse, (call s).2⟩ := by
  cases left with
  | zero => rfl
  | succ left =>
    have hfinal : isFinal (call s).2 = true := h.resolve_left (Nat.succ_ne_zero left)
    simp only [tryFrom, again?_eq, hfinal]
    rfl

/-- One wait and one try follow a transient failure. -/
theorem tryFrom_again {waits : List Nat} {left : Nat} (h : isFinal (call s).2 = false) :
    p.tryFrom call waits s (left + 1) =
      p.tryFrom call (p.delay waits.length (hintMs? (call s).2) :: waits) (call s).1 left := by
  simp only [tryFrom, again?_eq, h]
  rfl

/-- As long as no outcome was final, as many waits as calls were made. -/
theorem run_reaches {k : Nat} (h : ∀ i < k, isFinal (outcomeAt call s i) = false) (hk : k < p.attempts) :
    p.run call s = p.tryFrom call ((List.range k).map (p.waitAfter call s)).reverse (called call s k)
      (p.attempts - 1 - k) := by
  induction k with
  | zero => rfl
  | succ k ih =>
    have hleft : p.attempts - 1 - k = p.attempts - 1 - (k + 1) + 1 := by omega
    rw [ih (fun i hi => h i (Nat.lt_succ_of_lt hi)) (Nat.lt_of_succ_lt hk), hleft,
      tryFrom_again (h k (Nat.lt_succ_self k)), List.range_succ, List.map_append, List.reverse_append,
      List.length_reverse, List.length_map, List.length_range]
    rfl

/-- **Tries**: a call is made until its outcome is final, but at most as often as the policy says, and at least once. It
comes to the outcome of its last call, and between any two calls there is one wait: when so many calls have been made
and another follows, as many waits have been made, each for the delay that the policy sets after that call and for the
hint of its outcome. -/
theorem run_stops (p : RetryPolicy) (call : σ → σ × Except EmbedError α) (s : σ) :
    ∃ n : Nat, (n : ℕ∞) = min (firstFinal (outcomeAt call s)) (max 1 p.maxAttempts : Nat) ∧
      p.run call s =
        ⟨called call s n, (List.range (n - 1)).map (p.waitAfter call s), outcomeAt call s (n - 1)⟩ ∧
      ∀ k < n, p.run call s = p.tryFrom call ((List.range k).map (p.waitAfter call s)).reverse (called call s k)
        (p.attempts - 1 - k) := by
  obtain ⟨n, hn⟩ : ∃ n : Nat, (n : ℕ∞) = min (firstFinal (outcomeAt call s)) p.attempts :=
    ENat.ne_top_iff_exists.1 (ne_top_of_le_ne_top (ENat.natCast_ne_top _) (min_le_right _ _))
  have hfirst : (n : ℕ∞) ≤ firstFinal (outcomeAt call s) := hn ▸ min_le_left _ _
  have hattempts : n ≤ p.attempts := Nat.cast_le.1 (hn ▸ min_le_right _ _)
  obtain ⟨m, rfl⟩ : ∃ m, n = m + 1 := by
    have hpos : ((0 : Nat) : ℕ∞) < n := by
      rw [hn, lt_min_iff, lt_firstFinal_iff, Nat.cast_lt]
      exact ⟨nofun, Nat.le_max_left ..⟩
    exact Nat.exists_eq_add_one.2 (Nat.cast_lt.1 hpos)
  have hbefore : ∀ i < m, isFinal (outcomeAt call s i) = false :=
    lt_firstFinal_iff.1 (lt_of_lt_of_le (Nat.cast_lt.2 (Nat.lt_succ_self m)) hfirst)
  -- what ends the calls is either that no try is left or that the outcome is final
  have hlast : p.attempts - 1 - m = 0 ∨ isFinal (outcomeAt call s m) = true := by
    obtain hmin | hmin := min_choice (firstFinal (outcomeAt call s)) (p.attempts : ℕ∞)
    · exact .inr (isFinal_of_firstFinal (hmin.symm.trans hn.symm))
    · have heq : m + 1 = p.attempts := Nat.cast_inj.1 (hn.trans hmin)
      exact .inl (by omega)
  refine ⟨m + 1, hn, ?_, fun k hk => run_reaches (fun i hi => hbefore i (by omega)) (by omega)⟩
  rw [run_reaches hbefore (by omega), tryFrom_last hlast, List.reverse_reverse]
  rfl

/-- Without a try to spare a call is made all the same. -/
example : (run ⟨0, 1000, 30000⟩ (fun n => (n + 1, (.error (.server "m" 503) : Except EmbedError Unit))) 0).state = 1 :=
  rfl

end RetryPolicy

end CodeIndex.Embedding
