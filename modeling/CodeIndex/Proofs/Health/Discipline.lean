import CodeIndex.Proofs.Health.Breaker

/-!
How a circuit behaves over whole histories. An entry never counts more failures than there were since the last success
or reset, and it keeps the time of none but the last, so a circuit is open only for a window after a failure. A failure
that finds it half-open trips it again, and what is tripped stays so until a success, a reset or the end of the window.
-/

namespace CodeIndex.Health

namespace Entry

variable {c : Config} {now : Nat} {e : Entry}

theorem failures_recordFailure_le (c : Config) (now : Nat) (e : Entry) :
    (e.recordFailure c now).failures ≤ e.failures + 1 := by
  simp only [recordFailure]
  by_cases hh : e.circuit c now = .halfOpen
  · have hnot : ¬ e.failures < c.failureThreshold := fun hlt => by
      rw [circuit_eq_closed.2 hlt] at hh
      cases hh
    rw [if_pos hh]
    omega
  · rw [if_neg hh]
    cases e.lastFailure with
    | none => exact Nat.le_refl _
    | some t =>
      dsimp only
      split
      · exact Nat.le_add_left 1 e.failures
      · exact Nat.le_refl _

@[simp] theorem failures_recordSuccess (e : Entry) : e.recordSuccess.failures = 0 := by
  unfold recordSuccess
  split
  · rfl
  · omega

end Entry

namespace Monitor

variable {m : Monitor} {p : String}

/-- The events of a kind in a history, with their times. -/
def timed (which : Event → Prop) [DecidablePred which] (m : Monitor) : List Event → List (Nat × Event)
  | [] => []
  | e :: events => if which e then (m.now, e) :: timed which (m.step e) events else timed which (m.step e) events

/-- The times of a kind of event in a history. -/
def times (which : Event → Prop) [DecidablePred which] (m : Monitor) (events : List Event) : List Nat :=
  (m.timed which events).map (·.1)

theorem times_cons (which : Event → Prop) [DecidablePred which] (m : Monitor) (e : Event) (events : List Event) :
    m.times which (e :: events) =
      if which e then m.now :: (m.step e).times which events else (m.step e).times which events := by
  unfold times
  rw [timed]
  split <;> rfl

/-- What is kept by all events of a history but those that it is free of. -/
theorem run_keeps {P : Monitor → Prop} {free : Event → Prop} (hstep : ∀ m e, free e → P m → P (m.step e))
    {events : List Event} (he : ∀ e ∈ events, free e) (h : P m) : P (m.run events) := by
  induction events generalizing m with
  | nil => exact h
  | cons e events ih =>
    exact ih (fun e' hm => he e' (List.mem_cons_of_mem e hm)) (hstep m e (he e List.mem_cons_self) h)

theorem failures_le_strike {past : List Nat} (h : (m.registry.get p).failures ≤ past.length) (e : Event) :
    ((m.step e).registry.get p).failures ≤ (strike p m past e).length := by
  rcases breaker_cases m p e with ⟨rfl, hget⟩ | ⟨rfl, hget⟩ | ⟨rfl, -⟩ | ⟨he, hsame⟩
  · rw [strike, if_pos rfl, hget, List.length_cons]
    exact Nat.le_trans (Entry.failures_recordFailure_le _ _ _) (Nat.add_le_add_right h 1)
  · rw [hget, Entry.failures_recordSuccess]
    exact Nat.zero_le _
  · exact Nat.le_refl 0
  · rw [strike_of_not_bears he]
    exact Nat.le_trans (Nat.le_of_eq (congrArg Prod.fst hsame)) h

/-- No entry counts more failures than came after the last success or reset. -/
theorem failures_le_strikes {past : List Nat} (h : (m.registry.get p).failures ≤ past.length) (events : List Event) :
    ((m.run events).registry.get p).failures ≤ (strikes p m past events).length := by
  induction events generalizing m past with
  | nil => exact h
  | cons e events ih => exact ih (failures_le_strike h e)

theorem lastFailure_step {e : Event} {t : Nat} (h : ((m.step e).registry.get p).lastFailure = some t) :
    (m.registry.get p).lastFailure = some t ∨ e = .failure p ∧ t = m.now := by
  rcases breaker_cases m p e with ⟨rfl, hget⟩ | ⟨rfl, hget⟩ | ⟨rfl, -⟩ | ⟨-, hsame⟩
  · rw [hget] at h
    exact .inr ⟨rfl, (Option.some.inj h).symm⟩
  · rw [hget, Entry.recordSuccess] at h
    split at h
    · cases h
    · exact .inl h
  · cases h
  · exact .inl ((congrArg Prod.snd hsame).symm.trans h)

/-- The last failure that an entry knows of is one of the history's. -/
theorem lastFailure_run {events : List Event} {t : Nat} (h : ((m.run events).registry.get p).lastFailure = some t) :
    (m.registry.get p).lastFailure = some t ∨ t ∈ m.times (· = .failure p) events := by
  induction events generalizing m with
  | nil => exact .inl h
  | cons e events ih =>
    rw [times_cons]
    rcases ih h with hlast | hmem
    · rcases lastFailure_step hlast with hlast | ⟨he, ht⟩
      · exact .inl hlast
      · rw [if_pos he, ht]
        exact .inr List.mem_cons_self
    · refine .inr ?_
      split
      · exact List.mem_cons_of_mem _ hmem
      · exact hmem

/-- A circuit that a failure at or after a time holds open. -/
structure Tripped (p : String) (since : Nat) (m : Monitor) : Prop where
  threshold : m.registry.config.failureThreshold ≤ (m.registry.get p).failures
  last : ∃ t, (m.registry.get p).lastFailure = some t ∧ since ≤ t
  begun : since ≤ m.now

theorem Tripped.opened {since t : Nat} (h : m.Tripped p since) (ht : t - since < m.registry.config.failureWindowMs) :
    m.registry.circuit t p = .opened := by
  obtain ⟨u, hu, hle⟩ := h.last
  exact Entry.circuit_eq_opened.2 ⟨h.threshold, u, hu, by omega⟩

theorem Tripped.step {since : Nat} {e : Event} (he : e ≠ .success p ∧ e ≠ .reset) (h : m.Tripped p since) :
    (m.step e).Tripped p since := by
  have hconfig := config_step m e
  have hbegun := Nat.le_trans h.begun (now_le_step m e)
  rcases breaker_cases m p e with ⟨rfl, hget⟩ | ⟨hs, -⟩ | ⟨hr, -⟩ | ⟨-, hsame⟩
  · refine ⟨?_, ⟨m.now, ?_, h.begun⟩, hbegun⟩
    · rw [hconfig, hget]
      exact Entry.threshold_le_recordFailure h.threshold
    · rw [hget]
      rfl
  · exact absurd hs he.1
  · exact absurd hr he.2
  · obtain ⟨t, ht, hle⟩ := h.last
    refine ⟨?_, ⟨t, (congrArg Prod.snd hsame).trans ht, hle⟩, hbegun⟩
    rw [hconfig]
    exact Nat.le_trans h.threshold (Nat.le_of_eq (congrArg Prod.fst hsame).symm)

/-- A failed try of a half-open circuit trips it. -/
theorem tripped_of_halfOpen (h : m.registry.circuit m.now p = .halfOpen) : (m.step (.failure p)).Tripped p m.now := by
  refine ⟨?_, ⟨m.now, ?_, Nat.le_refl _⟩, Nat.le_refl _⟩
  · rw [get_failure]
    exact Nat.le_of_eq (if_pos h).symm
  · rw [get_failure]
    rfl

/-- Only a failure makes an entry count failures again. -/
theorem failures_eq_zero_step (m : Monitor) (e : Event) (he : e ≠ .failure p)
    (h : (m.registry.get p).failures = 0) : ((m.step e).registry.get p).failures = 0 := by
  rcases breaker_cases m p e with ⟨hf, -⟩ | ⟨rfl, hget⟩ | ⟨rfl, -⟩ | ⟨-, hsame⟩
  · exact absurd hf he
  · rw [hget, Entry.failures_recordSuccess]
  · rfl
  · exact (congrArg Prod.fst hsame).trans h

end Monitor

/-- A circuit is open only if as many failures as the threshold asks for came after the last success or reset, and never
once a window has passed since the latest failure of all. A failure that finds it half-open holds it open for the window
that follows, whatever happens but a success or a reset. After a success it is closed and counts no failure, until one
comes. -/
theorem circuit_discipline (config : Config) (hc : 1 ≤ config.failureThreshold) (now : Nat) (events : List Event)
    (p : String) :
    let start : Monitor := { now, registry := { config } }
    let m := start.run events
    (∀ t, m.now ≤ t → m.registry.circuit t p = .opened →
        config.failureThreshold ≤ (Monitor.strikes p start [] events).length) ∧
      (∀ t, m.now ≤ t → (∀ u ∈ start.times (· = .failure p) events, config.failureWindowMs ≤ t - u) →
        m.registry.circuit t p ≠ .opened) ∧
      (m.registry.circuit m.now p = .halfOpen → ∀ later, (∀ e ∈ later, e ≠ .success p ∧ e ≠ .reset) →
        let after := (m.step (.failure p)).run later
        ∀ t, after.now ≤ t → t - m.now < config.failureWindowMs → after.registry.circuit t p = .opened) ∧
      ∀ later, (∀ e ∈ later, e ≠ .failure p) →
        let after := (m.step (.success p)).run later
        ∀ t, after.now ≤ t → after.registry.circuit t p = .closed ∧ (after.registry.snapshot t p).failures = 0 := by
  intro start m
  have hconfig : m.registry.config = config := Monitor.config_run start events
  have hlater : ∀ e later, ((m.step e).run later).registry.config = config := fun e later =>
    (Monitor.config_run (m.step e) later).trans ((Monitor.config_step m e).trans hconfig)
  refine ⟨fun t _ ho => ?_, fun t _ hold ho => ?_, ?_, ?_⟩
  · have hnone : (start.registry.get p).failures ≤ ([] : List Nat).length := Nat.le_refl 0
    have hcount := Nat.le_trans (Entry.circuit_eq_opened.1 ho).1 (Monitor.failures_le_strikes hnone events)
    rw [hconfig] at hcount
    exact hcount
  · obtain ⟨-, u, hu, hw⟩ := Entry.circuit_eq_opened.1 ho
    rcases Monitor.lastFailure_run hu with hstart | hmem
    · cases hstart
    · rw [hconfig] at hw
      exact Nat.not_lt.2 (hold u hmem) hw
  · intro hh later hl after t _ ht
    have htripped : after.Tripped p m.now := Monitor.run_keeps (fun _ _ he h => h.step he) hl (Monitor.tripped_of_halfOpen hh)
    rw [← hlater (.failure p) later] at ht
    exact htripped.opened ht
  · intro later hl after t _
    have hzero : (after.registry.get p).failures = 0 := by
      refine Monitor.run_keeps (P := fun m => (m.registry.get p).failures = 0) Monitor.failures_eq_zero_step hl ?_
      rw [Monitor.get_success, Entry.failures_recordSuccess]
    refine ⟨Entry.circuit_eq_closed.2 ?_, hzero⟩
    rw [hlater (.success p) later, hzero]
    exact hc

/-- Two failures, and a window later. -/
def recovering : List Event := [.failure "p", .failure "p", .advance 1000]

/-- The rest of the window after a failed try, in which much happens. -/
def busy : List Event := [.glance "p", .rateLimit "p", .acquire "p" "a" 0, .failure "q", .advance 999]

theorem circuit_discipline_recovering :
    let config : Config := ⟨2, 1000, 3, 60000, 8⟩
    let start : Monitor := { registry := { config } }
    let m := start.run recovering
    let after := (m.step (.failure "p")).run busy
    1 ≤ config.failureThreshold ∧ m.registry.circuit m.now "p" = .halfOpen ∧
      (∀ e ∈ busy, e ≠ .success "p" ∧ e ≠ .reset) ∧ (∀ e ∈ busy, e ≠ .failure "p") ∧ after.now = 1999 ∧
      after.registry.circuit 1999 "p" = .opened ∧
      (((m.step (.success "p")).run busy).registry.snapshot 1999 "p").failures = 0 := by
  intro config start m after
  obtain ⟨-, -, htry, hsuccess⟩ := circuit_discipline config (by decide) 0 recovering "p"
  have hhalf : m.registry.circuit m.now "p" = .halfOpen := by decide +kernel
  have hfree : ∀ e ∈ busy, e ≠ .success "p" ∧ e ≠ .reset := by decide
  have hnone : ∀ e ∈ busy, e ≠ .failure "p" := by decide
  exact ⟨by decide, hhalf, hfree, hnone, by decide +kernel,
    htry hhalf busy hfree 1999 (by decide +kernel) (by decide +kernel),
    (hsuccess busy hnone 1999 (by decide +kernel)).2⟩

end CodeIndex.Health
