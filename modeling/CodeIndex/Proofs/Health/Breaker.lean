import CodeIndex.Proofs.Health.Held

/-!
When a circuit opens. Only a provider's failures and successes, and resets, bear on its circuit. An entry keeps a
count and the time of the last failure, so a failure counts on as long as the one before it is recent: a closed circuit
opens at the end of a run of failures each of which came soon after the one before. The run as a whole may take longer
than the window.
-/

namespace CodeIndex.Health

namespace Entry

variable {c : Config} {now : Nat} {e : Entry}

/-- What an entry knows of failures. -/
def breaker (e : Entry) : Nat × Option Nat := (e.failures, e.lastFailure)

theorem circuit_eq_closed : e.circuit c now = .closed ↔ e.failures < c.failureThreshold := by
  unfold circuit
  refine ⟨fun h => ?_, fun h => if_pos h⟩
  by_contra hf
  rw [if_neg hf] at h
  split at h
  · split at h <;> cases h
  · cases h

theorem circuit_eq_opened :
    e.circuit c now = .opened ↔
      c.failureThreshold ≤ e.failures ∧ ∃ t, e.lastFailure = some t ∧ now - t < c.failureWindowMs := by
  unfold circuit
  by_cases hf : e.failures < c.failureThreshold
  · rw [if_pos hf]
    exact ⟨nofun, fun h => absurd hf (Nat.not_lt.2 h.1)⟩
  · rw [if_neg hf]
    cases e.lastFailure with
    | none => exact ⟨nofun, fun ⟨_, _, ht, _⟩ => nomatch ht⟩
    | some t =>
      dsimp only
      by_cases ht : now - t < c.failureWindowMs
      · rw [if_pos ht]
        exact ⟨fun _ => ⟨Nat.not_lt.1 hf, t, rfl, ht⟩, fun _ => rfl⟩
      · rw [if_neg ht]
        refine ⟨nofun, fun ⟨_, u, hu, hw⟩ => absurd hw ?_⟩
        cases hu
        exact ht

/-- Once a circuit has opened, no further failure closes it. -/
theorem threshold_le_recordFailure (h : c.failureThreshold ≤ e.failures) :
    c.failureThreshold ≤ (e.recordFailure c now).failures := by
  simp only [recordFailure]
  cases hc : e.circuit c now with
  | closed => exact absurd (circuit_eq_closed.1 hc) (Nat.not_lt.2 h)
  | opened =>
    obtain ⟨-, t, ht, hw⟩ := circuit_eq_opened.1 hc
    simp only [ht, reduceCtorEq, if_false, decide_eq_true_eq, if_neg (Nat.not_le.2 hw)]
    exact Nat.le_succ_of_le h
  | halfOpen => exact Nat.le_of_eq (if_pos rfl).symm

end Entry

namespace Registry

variable {r r' : Registry} {p q : String}

theorem breaker_set (r : Registry) {q : String} {e : Entry} (he : e.breaker = (r.get q).breaker) (p : String) :
    ((r.set q e).get p).breaker = (r.get p).breaker := by
  by_cases hp : p = q
  · rw [hp, get_set_same, he]
  · rw [get_set_other r e hp]

theorem breaker_recordRateLimit (r : Registry) (now : Nat) (q p : String) :
    ((r.recordRateLimit now q).get p).breaker = (r.get p).breaker := by
  refine breaker_set r ?_ p
  simp only [Entry.recordRateLimit]
  split <;> rfl

theorem breaker_acquire {now : Nat} (ha : r.acquire? now q = some r') (p : String) :
    (r'.get p).breaker = (r.get p).breaker := by
  simp only [acquire?, Option.ite_none_right_eq_some] at ha
  obtain ⟨-, ha⟩ := ha
  cases ha
  refine breaker_set r ?_ p
  rfl

end Registry

namespace Event

/-- Whether an event bears on a provider's circuit. -/
def bears (p : String) : Event → Prop
  | .failure q | .success q => q = p
  | .reset => True
  | _ => False

end Event

namespace Monitor

variable {m : Monitor} {p : String}

theorem breaker_drop (m : Monitor) (slot p : String) :
    ((m.drop slot).registry.get p).breaker = (m.registry.get p).breaker := by
  unfold drop
  split
  · refine Registry.breaker_set _ ?_ p
    rfl
  · rfl

/-- Every other event leaves alone what the registry knows of a provider's failures. -/
theorem breaker_step {e : Event} (he : ¬ e.bears p) :
    ((m.step e).registry.get p).breaker = (m.registry.get p).breaker := by
  cases e with
  | failure q => exact congrArg Entry.breaker (Registry.get_update_other _ _ (Ne.symm he))
  | rateLimit q => exact Registry.breaker_recordRateLimit _ _ q p
  | success q => exact congrArg Entry.breaker (Registry.get_update_other _ _ (Ne.symm he))
  | reset => exact absurd trivial he
  | glance q =>
    refine Registry.breaker_set _ ?_ p
    rfl
  | look q =>
    refine Registry.breaker_set _ ?_ p
    rfl
  | advance ms => rfl
  | acquire q slot timeout =>
    change ((m.acquire q slot timeout).registry.get p).breaker = _
    obtain hnone | ⟨wait, -, registry, ha, hgranted⟩ := m.acquire_cases q slot timeout
    · rw [hnone]
    · rw [hgranted]
      exact (breaker_drop _ slot p).trans (Registry.breaker_acquire ha p)
  | release slot => exact breaker_drop m slot p

theorem get_failure (m : Monitor) (p : String) :
    (m.step (.failure p)).registry.get p = (m.registry.get p).recordFailure m.registry.config m.now :=
  Registry.get_update_same _ p _

theorem get_success (m : Monitor) (p : String) :
    (m.step (.success p)).registry.get p = (m.registry.get p).recordSuccess :=
  Registry.get_update_same _ p _

/-- What an event makes of all that the registry knows of a provider's failures. -/
theorem breaker_cases (m : Monitor) (p : String) (e : Event) :
    (e = .failure p ∧ (m.step e).registry.get p = (m.registry.get p).recordFailure m.registry.config m.now) ∨
      (e = .success p ∧ (m.step e).registry.get p = (m.registry.get p).recordSuccess) ∨
      (e = .reset ∧ (m.step e).registry.get p = .fresh m.registry.config) ∨
      (¬ e.bears p ∧ ((m.step e).registry.get p).breaker = (m.registry.get p).breaker) := by
  by_cases he : e.bears p
  · cases e with
    | failure q =>
      obtain rfl : q = p := he
      exact .inl ⟨rfl, get_failure m q⟩
    | success q =>
      obtain rfl : q = p := he
      exact .inr (.inl ⟨rfl, get_success m q⟩)
    | reset => exact .inr (.inr (.inl ⟨rfl, rfl⟩))
    | _ => exact he.elim
  · exact .inr (.inr (.inr ⟨he, breaker_step he⟩))

/-- Time does not run backwards. -/
theorem now_le_step (m : Monitor) (e : Event) : m.now ≤ (m.step e).now := by
  cases e with
  | advance ms => exact Nat.le_add_right _ ms
  | acquire q slot timeout =>
    change m.now ≤ (m.acquire q slot timeout).now
    obtain hnone | ⟨wait, -, registry, -, hgranted⟩ := m.acquire_cases q slot timeout
    · rw [hnone]
      exact Nat.le_add_right _ timeout
    · rw [hgranted]
      exact (now_drop _ slot).symm ▸ Nat.le_add_right _ wait
  | release slot => exact (now_drop m slot).symm ▸ Nat.le_refl _
  | _ => exact Nat.le_refl _

/-- The times of a provider's failures since its last success or the last reset, latest first, after one more event. -/
def strike (p : String) (m : Monitor) (past : List Nat) : Event → List Nat
  | .failure q => if q = p then m.now :: past else past
  | .success q => if q = p then [] else past
  | .reset => []
  | _ => past

/-- The times of a provider's failures since its last success or the last reset, latest first, after a history. -/
def strikes (p : String) (m : Monitor) (past : List Nat) : List Event → List Nat
  | [] => past
  | e :: events => strikes p (m.step e) (strike p m past e) events

theorem strike_of_not_bears {e : Event} (he : ¬ e.bears p) (past : List Nat) : strike p m past e = past := by
  cases e with
  | failure q => exact if_neg he
  | success q => exact if_neg he
  | reset => exact absurd trivial he
  | _ => rfl

/-- How many of the latest failures each came within a window of the one before. -/
def streak (window : Nat) : List Nat → Nat
  | [] => 0
  | [_] => 1
  | t :: u :: past => if t - u < window then streak window (u :: past) + 1 else 1

theorem streak_eq_zero {window : Nat} {past : List Nat} (h : streak window past = 0) : past = [] := by
  match past with
  | [] => rfl
  | [_] => cases h
  | t :: u :: past =>
    unfold streak at h
    split at h <;> cases h

theorem le_streak_iff (window : Nat) (past : List Nat) (n : Nat) :
    n ≤ streak window past ↔ n ≤ past.length ∧ (past.take n).IsChain fun t u => t - u < window := by
  induction past generalizing n with
  | nil => simp [streak]
  | cons t past ih =>
    match n, past with
    | 0, _ => simp
    | 1, [] => simp [streak]
    | n + 2, [] => simp [streak]
    | 1, u :: past =>
      have hone : 1 ≤ streak window (t :: u :: past) := by
        unfold streak
        split <;> omega
      simp [hone]
    | n + 2, u :: past =>
      have hrest := ih (n + 1)
      rw [List.take_succ_cons, List.length_cons, Nat.add_le_add_iff_right] at hrest
      rw [streak, List.take_succ_cons, List.take_succ_cons, List.isChain_cons_cons, List.length_cons, List.length_cons]
      by_cases ht : t - u < window
      · rw [if_pos ht, show n + 2 = n + 1 + 1 from rfl, Nat.add_le_add_iff_right, hrest, Nat.add_le_add_iff_right,
          Nat.add_le_add_iff_right, and_iff_right ht]
      · rw [if_neg ht]
        simp [ht]

/-- What an entry's count and time say of the failures so far. -/
structure Tallied (p : String) (m : Monitor) (past : List Nat) : Prop where
  threshold : 1 ≤ m.registry.config.failureThreshold
  sorted : (m.now :: past).Pairwise (· ≥ ·)
  last : (m.registry.get p).lastFailure = past.head?
  count : (m.registry.get p).failures < m.registry.config.failureThreshold →
    (m.registry.get p).failures = streak m.registry.config.failureWindowMs past

/-- A failure that finds the circuit closed counts on from the one before if that is recent. -/
theorem Tallied.recordFailure {past : List Nat} (h : m.Tallied p past)
    (hc : (m.registry.get p).failures < m.registry.config.failureThreshold) :
    ((m.registry.get p).recordFailure m.registry.config m.now).failures =
      streak m.registry.config.failureWindowMs (m.now :: past) := by
  have hclosed : (m.registry.get p).circuit m.registry.config m.now ≠ .halfOpen :=
    Entry.circuit_eq_closed.2 hc ▸ nofun
  have hcount := h.count hc
  simp only [Entry.recordFailure, if_neg hclosed, h.last, hcount]
  match past with
  | [] => rfl
  | t :: past =>
    simp only [List.head?_cons, streak, decide_eq_true_eq]
    by_cases ht : m.now - t < m.registry.config.failureWindowMs
    · rw [if_pos ht, if_neg (Nat.not_le.2 ht)]
    · rw [if_neg ht, if_pos (Nat.not_lt.1 ht)]

theorem Tallied.failure {past : List Nat} (h : m.Tallied p past) : (m.step (.failure p)).Tallied p (m.now :: past) := by
  have hget := get_failure m p
  refine ⟨h.threshold, List.pairwise_cons.2 ⟨?_, h.sorted⟩, by rw [hget]; rfl, fun hlt => ?_⟩
  · rintro t (- | ⟨-, ht⟩)
    · exact Nat.le_refl _
    · exact (List.pairwise_cons.1 h.sorted).1 t ht
  · rw [hget] at hlt ⊢
    refine h.recordFailure ?_
    by_contra hge
    exact Nat.not_lt.2 (Entry.threshold_le_recordFailure (Nat.not_lt.1 hge)) hlt

theorem Tallied.success {past : List Nat} (h : m.Tallied p past) : (m.step (.success p)).Tallied p [] := by
  have hget := get_success m p
  have hnone : (m.registry.get p).recordSuccess.breaker = (0, none) := by
    unfold Entry.recordSuccess
    by_cases hf : 0 < (m.registry.get p).failures
    · rw [if_pos hf]
      rfl
    · -- an entry without failures has no last failure either, as the threshold is at least one
      have hz : (m.registry.get p).failures = 0 := by omega
      have hcount := h.count (hz ▸ h.threshold)
      rw [hz] at hcount
      have hlast := h.last
      rw [streak_eq_zero hcount.symm] at hlast
      rw [if_neg hf, Entry.breaker, hz, hlast]
      rfl
  have hboth := Prod.ext_iff.1 hnone
  refine ⟨h.threshold, List.pairwise_singleton _ _, ?_, fun _ => ?_⟩
  · rw [hget]
    exact hboth.2
  · rw [hget]
    exact hboth.1

/-- Events that do not bear on the circuit leave the tally as it is. -/
theorem Tallied.other {past : List Nat} {e : Event} (h : m.Tallied p past) (he : ¬ e.bears p) :
    (m.step e).Tallied p past := by
  have hboth := Prod.ext_iff.1 (breaker_step (m := m) he)
  have hconfig := config_step m e
  have hsorted := List.pairwise_cons.1 h.sorted
  refine ⟨hconfig ▸ h.threshold, List.pairwise_cons.2 ⟨fun t ht => ?_, hsorted.2⟩, hboth.2.trans h.last, fun hlt => ?_⟩
  · exact Nat.le_trans (hsorted.1 t ht) (now_le_step m e)
  · rw [hconfig] at hlt ⊢
    exact hboth.1.trans (h.count (Nat.lt_of_le_of_lt (Nat.le_of_eq hboth.1.symm) hlt))

theorem Tallied.step {past : List Nat} (h : m.Tallied p past) (e : Event) :
    (m.step e).Tallied p (strike p m past e) := by
  rcases breaker_cases m p e with ⟨rfl, -⟩ | ⟨rfl, -⟩ | ⟨rfl, -⟩ | ⟨he, -⟩
  · rw [strike, if_pos rfl]
    exact h.failure
  · rw [strike, if_pos rfl]
    exact h.success
  · exact ⟨h.threshold, List.pairwise_singleton _ _, rfl, fun _ => rfl⟩
  · rw [strike_of_not_bears he]
    exact h.other he

theorem Tallied.run {past : List Nat} (h : m.Tallied p past) (events : List Event) :
    (m.run events).Tallied p (strikes p m past events) := by
  induction events generalizing m past with
  | nil => exact h
  | cons e events ih => exact ih (h.step e)

theorem tallied_empty {config : Config} (hc : 1 ≤ config.failureThreshold) (now : Nat) (p : String) :
    Tallied p { now, registry := { config } } [] :=
  ⟨hc, List.pairwise_singleton _ _, rfl, fun _ => rfl⟩

/-- Of times that only get earlier, those that are late enough come first. -/
theorem lt_countP_iff {past : List Nat} (h : past.Pairwise (· ≥ ·)) {late : Nat → Bool}
    (hlate : ∀ t u, u ≤ t → late u = true → late t = true) (n : Nat) :
    n < past.countP late ↔ ∃ t, past[n]? = some t ∧ late t = true := by
  induction past generalizing n with
  | nil => simp
  | cons t past ih =>
    obtain ⟨hfirst, hrest⟩ := List.pairwise_cons.1 h
    cases ht : late t with
    | true =>
      rw [List.countP_cons_of_pos ht]
      cases n with
      | zero => exact ⟨fun _ => ⟨t, rfl, ht⟩, fun _ => Nat.succ_pos _⟩
      | succ n =>
        rw [Nat.add_lt_add_iff_right, ih hrest]
        rfl
    | false =>
      have hnone : ∀ u ∈ t :: past, ¬ late u = true := fun u hu hl => by
        have hle : u ≤ t := (List.mem_cons.1 hu).elim (fun he => Nat.le_of_eq he) (hfirst u)
        rw [hlate t u hle hl] at ht
        cases ht
      rw [List.countP_eq_zero.2 hnone]
      exact ⟨nofun, fun ⟨u, hu, hl⟩ => absurd hl (hnone u (List.mem_of_getElem? hu))⟩

/-- In a run of failures each of which came soon after the one before, the n-th from the end is not long ago either. -/
theorem ago_le_of_isChain {window now : Nat} {past : List Nat} {t : Nat} {n : Nat}
    (hc : ((now :: past).take (n + 1)).IsChain fun t u => t - u < window) (ht : (now :: past)[n]? = some t) :
    now - t ≤ n * (window - 1) := by
  induction n generalizing now past with
  | zero =>
    cases ht
    omega
  | succ n ih =>
    match past with
    | [] => cases ht
    | u :: past =>
      rw [List.take_succ_cons, List.take_succ_cons, List.isChain_cons_cons] at hc
      have hu : u - t ≤ n * (window - 1) := ih hc.2 ht
      rw [Nat.add_mul, Nat.one_mul]
      have := hc.1
      omega

end Monitor

/-- A failure opens a closed circuit if and only if it is the last of as many failures as the threshold asks for, with
no success and no reset among them, each of which came within a window of the one before. That many of them then lie
within as many windows, less one; they lie within a single window only if the first of them does. -/
theorem opens_iff (config : Config) (now : Nat) (events : List Event) (p : String) :
    let start : Monitor := { now, registry := { config } }
    let m := start.run events
    let past := m.now :: Monitor.strikes p start [] events
    let opens := (m.step (.failure p)).registry.circuit m.now p = .opened
    m.registry.circuit m.now p = .closed →
      (opens ↔ 0 < config.failureWindowMs ∧ config.failureThreshold ≤ past.length ∧
        (past.take config.failureThreshold).IsChain fun t u => t - u < config.failureWindowMs) ∧
      (opens → config.failureThreshold ≤
        past.countP fun t => m.now - t ≤ (config.failureThreshold - 1) * (config.failureWindowMs - 1)) ∧
      (opens → (config.failureThreshold ≤ past.countP (fun t => m.now - t < config.failureWindowMs) ↔
        ∃ t, past[config.failureThreshold - 1]? = some t ∧ m.now - t < config.failureWindowMs)) := by
  intro start m past opens hclosed
  have hconfig : m.registry.config = config := Monitor.config_run start events
  have hlt : (m.registry.get p).failures < config.failureThreshold := hconfig ▸ Entry.circuit_eq_closed.1 hclosed
  have hm : m.Tallied p (Monitor.strikes p start [] events) :=
    (Monitor.tallied_empty (Nat.zero_lt_of_lt hlt) now p).run events
  have hopens : opens ↔ 0 < config.failureWindowMs ∧ config.failureThreshold ≤ past.length ∧
      (past.take config.failureThreshold).IsChain fun t u => t - u < config.failureWindowMs := by
    have hcount := hm.recordFailure (hconfig.symm ▸ hlt)
    rw [← Monitor.le_streak_iff, ← hconfig, ← hcount, and_comm]
    change ((m.step (.failure p)).registry.get p).circuit m.registry.config m.now = .opened ↔ _
    rw [Entry.circuit_eq_opened, Monitor.get_failure]
    refine and_congr_right fun _ => ⟨fun ⟨t, ht, hw⟩ => Nat.zero_lt_of_lt hw, fun hw => ⟨m.now, rfl, ?_⟩⟩
    rw [Nat.sub_self]
    exact hw
  have hsorted : past.Pairwise (· ≥ ·) := hm.sorted
  obtain ⟨n, hn⟩ : ∃ n, config.failureThreshold = n + 1 := Nat.exists_eq_add_one.2 (Nat.zero_lt_of_lt hlt)
  refine ⟨hopens, fun ho => ?_, fun _ => ?_⟩
  · obtain ⟨-, hlen, hchain⟩ := hopens.1 ho
    rw [hn] at hlen hchain ⊢
    refine (Monitor.lt_countP_iff hsorted (fun t u htu hu => ?_) n).2 ⟨_, List.getElem?_eq_getElem hlen, ?_⟩
    · simp only [decide_eq_true_eq] at hu ⊢
      omega
    · exact decide_eq_true (Monitor.ago_le_of_isChain hchain (List.getElem?_eq_getElem hlen))
  · rw [hn]
    refine (Monitor.lt_countP_iff hsorted (fun t u htu hu => ?_) n).trans ?_
    · simp only [decide_eq_true_eq] at hu ⊢
      omega
    · simp only [decide_eq_true_eq, Nat.add_sub_cancel]

/-- Failures spread over almost two windows. -/
def spread : List Event := [.failure "p", .advance 3599999, .failure "p", .advance 3599999]

theorem opens_after_spread :
    let start : Monitor := { registry := { config := ⟨3, 3600000, 3, 60000, 8⟩ } }
    let m := start.run spread
    m.registry.circuit m.now "p" = .closed ∧ (m.step (.failure "p")).registry.circuit m.now "p" = .opened :=
  ⟨by decide +kernel, ((opens_iff ⟨3, 3600000, 3, 60000, 8⟩ 0 spread "p") (by decide +kernel)).1.2 (by decide +kernel)⟩

/-- The circuit opens although only two failures lie within the window. -/
theorem two_in_window_open :
    let start : Monitor := { registry := { config := ⟨3, 3600000, 3, 60000, 8⟩ } }
    let m := start.run spread
    let past := m.now :: Monitor.strikes "p" start [] spread
    m.registry.circuit m.now "p" = .closed ∧ (m.step (.failure "p")).registry.circuit m.now "p" = .opened ∧
      past = [7199998, 3599999, 0] ∧ ¬ 3 ≤ past.countP fun t => m.now - t ≤ 3600000 := by
  decide +kernel

end CodeIndex.Health
