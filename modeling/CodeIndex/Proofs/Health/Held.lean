import CodeIndex.Health.History
import CodeIndex.Proofs.Health.Slots
import Mathlib.Data.List.Nodup

/-!
Slots held in the course of a history. A registry knows of each provider how many of its slots are held, no more and
no less; a slot is granted only below the limit of that moment, and no provider has more of them held than the default
allows. A caller who waits while others act is one who looks at the limits at each of its turns and, at the turn that
finds a slot, takes it without any wait, so the order of events is any that callers side by side can have.
-/

namespace CodeIndex.Health

namespace Entry

variable {c : Config} {e : Entry}

theorem recommended_decay_le (he : e.recommended ≤ c.defaultConcurrency) (now : Nat) :
    (e.decay c now).recommended ≤ c.defaultConcurrency := by
  rw [recommended_decay]
  split
  · exact Nat.le_refl _
  · exact he

theorem recommended_recordRateLimit_le (hc : 1 ≤ c.defaultConcurrency) (he : e.recommended ≤ c.defaultConcurrency)
    (now : Nat) : (e.recordRateLimit c now).recommended ≤ c.defaultConcurrency := by
  have hd := recommended_decay_le he now
  simp only [recordRateLimit]
  split
  · exact Nat.max_le.2 ⟨Nat.le_trans (Nat.div_le_self _ 2) hd, hc⟩
  · exact hd

end Entry

namespace Registry

variable {r r' : Registry} {name : String}

/-- No limit is above the default. -/
def Capped (r : Registry) : Prop := ∀ name, (r.get name).recommended ≤ r.config.defaultConcurrency

theorem Capped.set (h : r.Capped) (name : String) {e : Entry} (he : e.recommended ≤ r.config.defaultConcurrency) :
    (r.set name e).Capped := by
  intro other
  rw [config_set]
  by_cases ho : other = name
  · rw [ho, get_set_same]
    exact he
  · rw [get_set_other r e ho]
    exact h other

theorem Capped.recordFailure (h : r.Capped) (now : Nat) (name : String) : (r.recordFailure now name).Capped :=
  h.set name (h name)

theorem Capped.recordRateLimit (h : r.Capped) (hc : 1 ≤ r.config.defaultConcurrency) (now : Nat) (name : String) :
    (r.recordRateLimit now name).Capped := h.set name (Entry.recommended_recordRateLimit_le hc (h name) now)

theorem Capped.recordSuccess (h : r.Capped) (name : String) : (r.recordSuccess name).Capped := by
  refine h.set name ?_
  unfold Entry.recordSuccess
  split <;> exact h name

theorem Capped.meet (h : r.Capped) (name : String) : (r.meet name).Capped := h.set name (h name)

theorem Capped.refresh (h : r.Capped) (now : Nat) (name : String) : (r.refresh now name).Capped :=
  h.set name (Entry.recommended_decay_le (h name) now)

theorem Capped.release (h : r.Capped) (name : String) : (r.release name).Capped := h.set name (h name)

theorem Capped.acquire (h : r.Capped) {now : Nat} (ha : r.acquire? now name = some r') : r'.Capped := by
  simp only [acquire?, Option.ite_none_right_eq_some] at ha
  obtain ⟨-, ha⟩ := ha
  cases ha
  exact h.set name (Entry.recommended_decay_le (h name) now)

/-- A slot is granted below the limit of the moment. -/
theorem lt_of_acquire? {now : Nat} (ha : r.acquire? now name = some r') :
    (r.get name).inFlight < r.recommended now name := by
  simp only [acquire?, Option.ite_none_right_eq_some] at ha
  exact Entry.admits_decay.1 ha.1

end Registry

namespace Monitor

variable {m : Monitor} {slot p q : String}

/-- How many slots of a provider are held. -/
def live (m : Monitor) (p : String) : Nat := m.slots.countP (·.2 == p)

/-- The slots that the registry knows of are those held, and some that are about to be. -/
def Knows (m : Monitor) (pending : String → Nat) : Prop :=
  ∀ q, (m.registry.get q).inFlight = m.live q + pending q

/-- The registry knows of each slot that is held, and of no other, and slots go by names of their own. -/
structure Sound (m : Monitor) : Prop where
  default : 1 ≤ m.registry.config.defaultConcurrency
  names : (m.slots.map (·.1)).Nodup
  exact : m.Knows fun _ => 0
  capped : m.registry.Capped
  full : ∀ q, m.live q ≤ m.registry.config.defaultConcurrency

/-- A booking that leaves slots and settings as they are. -/
theorem Sound.booked {r : Registry} (h : m.Sound) (hr : m.registry.KeepsSlots r) (hc : r.Capped) :
    Sound { m with registry := r } where
  default := hr.config ▸ h.default
  names := h.names
  exact q := (hr.inFlight q).trans (h.exact q)
  capped := hc
  full q := hr.config ▸ h.full q

theorem Sound.elapsed (h : m.Sound) (now : Nat) : Sound { m with now } :=
  ⟨h.default, h.names, h.exact, h.capped, h.full⟩

theorem drop_unheld (h : m.holder? slot = none) : m.drop slot = m := by
  unfold drop
  rw [h]

theorem drop_held (h : m.holder? slot = some p) :
    m.drop slot = { m with registry := m.registry.release p, slots := m.slots.filter (·.1 != slot) } := by
  unfold drop
  rw [h]

theorem slots_drop (m : Monitor) (slot : String) : (m.drop slot).slots = m.slots.filter (·.1 != slot) := by
  cases h : m.holder? slot with
  | some p => rw [drop_held h]
  | none =>
    rw [drop_unheld h, eq_comm, List.filter_eq_self]
    exact fun x hx => bne_iff_ne.2 fun he =>
      List.find?_eq_none.1 (Option.map_eq_none_iff.1 h) x hx (beq_iff_eq.2 he)

/-- A slot is held under its name just once. -/
theorem slots_of_holder (hn : (m.slots.map (·.1)).Nodup) (h : m.holder? slot = some p) :
    ∃ before after, m.slots = before ++ (slot, p) :: after ∧ m.slots.filter (·.1 != slot) = before ++ after := by
  obtain ⟨⟨name, provider⟩, hf, rfl⟩ := Option.map_eq_some_iff.1 h
  obtain ⟨hname, before, after, hs, hbefore⟩ := List.find?_eq_some_iff_append.1 hf
  obtain rfl : name = slot := beq_iff_eq.1 hname
  refine ⟨before, after, hs, ?_⟩
  rw [hs, List.map_append, List.map_cons, List.nodup_append] at hn
  obtain ⟨-, hafter, -⟩ := hn
  have hfresh := (List.nodup_cons.1 hafter).1
  rw [hs, List.filter_append, List.filter_cons_of_neg (by simp)]
  congr 1
  · exact List.filter_eq_self.2 fun x hx => hbefore x hx
  · refine List.filter_eq_self.2 fun x hx => bne_iff_ne.2 fun he => hfresh ?_
    exact List.mem_map.2 ⟨x, hx, he⟩

/-- A slot given back is one of its provider's, and nobody else's. -/
theorem live_drop (hn : (m.slots.map (·.1)).Nodup) (h : m.holder? slot = some p) (q : String) :
    m.live q = (m.drop slot).live q + if q = p then 1 else 0 := by
  obtain ⟨before, after, hs, hf⟩ := slots_of_holder hn h
  unfold live
  rw [slots_drop, hf, hs, List.countP_append, List.countP_append, List.countP_cons, ← Nat.add_assoc]
  congr 1
  by_cases hq : q = p
  · simp [hq]
  · simp [hq, Ne.symm hq]

/-- The registry learns of a slot that is given back. -/
theorem Knows.drop {pending : String → Nat} (h : m.Knows pending) (hn : (m.slots.map (·.1)).Nodup) (slot : String) :
    (m.drop slot).Knows pending := by
  cases hh : m.holder? slot with
  | none =>
    rw [drop_unheld hh]
    exact h
  | some p =>
    intro q
    have hr : ((m.drop slot).registry.get q).inFlight = (m.registry.get q).inFlight - if q = p then 1 else 0 := by
      rw [drop_held hh]
      exact Registry.release_inFlight m.registry p q
    rw [hr, h q, live_drop hn hh]
    omega

theorem names_drop (hn : (m.slots.map (·.1)).Nodup) (slot : String) : ((m.drop slot).slots.map (·.1)).Nodup := by
  rw [slots_drop]
  exact hn.sublist (List.filter_sublist.map _)

theorem live_drop_le (m : Monitor) (slot q : String) : (m.drop slot).live q ≤ m.live q := by
  unfold live
  rw [slots_drop]
  exact List.filter_sublist.countP_le

theorem config_drop (m : Monitor) (slot : String) : (m.drop slot).registry.config = m.registry.config := by
  unfold drop
  split <;> rfl

theorem now_drop (m : Monitor) (slot : String) : (m.drop slot).now = m.now := by
  unfold drop
  split <;> rfl

theorem capped_drop (h : m.registry.Capped) (slot : String) : (m.drop slot).registry.Capped := by
  unfold drop
  split
  · exact h.release _
  · exact h

theorem Sound.drop (h : m.Sound) (slot : String) : (m.drop slot).Sound where
  default := by
    rw [config_drop]
    exact h.default
  names := names_drop h.names slot
  exact := h.exact.drop h.names slot
  capped := capped_drop h.capped slot
  full q := by
    rw [config_drop]
    exact Nat.le_trans (live_drop_le m slot q) (h.full q)

/-- A monitor with one slot more, once the registry has granted it. -/
def hold (m : Monitor) (registry : Registry) (p slot : String) : Monitor :=
  let m := Monitor.drop { m with registry } slot
  { m with slots := m.slots ++ [(slot, p)] }

theorem countP_snoc (slots : List (String × String)) (slot p q : String) :
    (slots ++ [(slot, p)]).countP (·.2 == q) = slots.countP (·.2 == q) + if q = p then 1 else 0 := by
  rw [List.countP_append]
  congr 1
  by_cases hq : q = p
  · simp [hq]
  · simp [hq, Ne.symm hq]

theorem live_hold (m : Monitor) (registry : Registry) (p slot q : String) :
    (m.hold registry p slot).live q = (Monitor.drop { m with registry } slot).live q + if q = p then 1 else 0 :=
  countP_snoc (Monitor.drop { m with registry } slot).slots slot p q

theorem config_hold {registry : Registry} {now : Nat} (ha : m.registry.acquire? now p = some registry)
    (slot : String) : (m.hold registry p slot).registry.config = m.registry.config :=
  (config_drop { m with registry } slot).trans (Registry.acquire?_eq_some ha).1

/-- What becomes of a caller: there is no slot in time, or one is granted below the limit of that moment. -/
theorem acquire_cases (m : Monitor) (p slot : String) (timeout : Nat) :
    m.acquire p slot timeout = { m with now := m.now + timeout } ∨
      ∃ wait ≤ timeout, ∃ registry, m.registry.acquire? (m.now + wait) p = some registry ∧
        m.acquire p slot timeout = hold { m with now := m.now + wait } registry p slot := by
  unfold acquire wait?
  cases hw : (m.registry.get p).pollWait? m.registry.config m.now with
  | none => exact .inl rfl
  | some wait =>
    dsimp only
    by_cases hle : wait ≤ timeout
    · rw [if_pos hle]
      dsimp only
      cases ha : m.registry.acquire? (m.now + wait) p with
      | none => exact .inl rfl
      | some registry => exact .inr ⟨wait, hle, registry, ha, rfl⟩
    · rw [if_neg hle]
      exact .inl rfl

theorem names_hold (hn : (m.slots.map (·.1)).Nodup) (registry : Registry) (p slot : String) :
    ((m.hold registry p slot).slots.map (·.1)).Nodup := by
  change ((_ ++ [(slot, p)]).map (·.1)).Nodup
  rw [List.map_append, slots_drop, List.nodup_append]
  refine ⟨hn.sublist (List.filter_sublist.map _), List.nodup_singleton slot, fun name hm other ho => ?_⟩
  obtain ⟨x, hx, rfl⟩ := List.mem_map.1 hm
  rw [List.mem_singleton.1 ho]
  exact bne_iff_ne.1 (List.mem_filter.1 hx).2

/-- What a registry counts once it has granted a slot. -/
theorem inFlight_granted {registry : Registry} {time : Nat} (ha : m.registry.acquire? time p = some registry)
    (q : String) : (registry.get q).inFlight = (m.registry.get q).inFlight + if q = p then 1 else 0 := by
  obtain ⟨-, -, hone, hothers⟩ := Registry.acquire?_eq_some ha
  by_cases hq : q = p
  · rw [if_pos hq, hq, hone]
  · rw [if_neg hq, hothers q hq, Nat.add_zero]

theorem Sound.hold (h : m.Sound) {registry : Registry} {now : Nat} (ha : m.registry.acquire? now p = some registry)
    (slot : String) : (m.hold registry p slot).Sound := by
  have hcapped := h.capped.acquire ha
  have hlt := Registry.lt_of_acquire? ha
  have hle : m.registry.recommended now p ≤ m.registry.config.defaultConcurrency :=
    Entry.recommended_decay_le (h.capped p) now
  have hexact : (m.registry.get p).inFlight = m.live p := h.exact p
  have hknows : Knows { m with registry } fun q => if q = p then 1 else 0 := by
    intro q
    change (registry.get q).inFlight = m.live q + if q = p then 1 else 0
    rw [inFlight_granted ha, h.exact q, Nat.add_zero]
  refine ⟨?_, names_hold h.names registry p slot, fun q => ?_, capped_drop hcapped slot, fun q => ?_⟩
  · rw [config_hold ha]
    exact h.default
  · rw [live_hold]
    exact hknows.drop h.names slot q
  · rw [live_hold, config_hold ha]
    have hdrop : (Monitor.drop { m with registry } slot).live q ≤ m.live q := live_drop_le { m with registry } slot q
    by_cases hq : q = p
    · subst hq
      rw [if_pos rfl]
      omega
    · rw [if_neg hq]
      exact Nat.le_trans hdrop (h.full q)

/-- No event but a reset makes the registry lose count. -/
theorem Sound.step (h : m.Sound) {e : Event} (he : e ≠ .reset) : (m.step e).Sound := by
  cases e with
  | failure p => exact h.booked (m.registry.keepsSlots_recordFailure m.now p) (h.capped.recordFailure m.now p)
  | rateLimit p =>
    exact h.booked (m.registry.keepsSlots_recordRateLimit m.now p) (h.capped.recordRateLimit h.default m.now p)
  | success p => exact h.booked (m.registry.keepsSlots_recordSuccess p) (h.capped.recordSuccess p)
  | reset => exact absurd rfl he
  | glance p => exact h.booked (m.registry.keepsSlots_meet p) (h.capped.meet p)
  | look p => exact h.booked (m.registry.keepsSlots_refresh m.now p) (h.capped.refresh m.now p)
  | advance ms => exact h.elapsed (m.now + ms)
  | acquire p slot timeout =>
    change (m.acquire p slot timeout).Sound
    obtain hnone | ⟨wait, -, registry, ha, hgranted⟩ := m.acquire_cases p slot timeout
    · rw [hnone]
      exact h.elapsed _
    · rw [hgranted]
      exact (h.elapsed (m.now + wait)).hold ha slot
  | release slot => exact h.drop slot

theorem config_step (m : Monitor) (e : Event) : (m.step e).registry.config = m.registry.config := by
  cases e with
  | acquire p slot timeout =>
    change (m.acquire p slot timeout).registry.config = m.registry.config
    obtain hnone | ⟨wait, -, registry, ha, hgranted⟩ := m.acquire_cases p slot timeout
    · rw [hnone]
    · rw [hgranted, config_hold (m := { m with now := m.now + wait }) ha slot]
  | release slot => exact config_drop m slot
  | _ => rfl

theorem config_run (m : Monitor) (events : List Event) : (m.run events).registry.config = m.registry.config := by
  induction events generalizing m with
  | nil => rfl
  | cons e events ih => exact (ih (m.step e)).trans (config_step m e)

theorem Sound.run {events : List Event} (h : m.Sound) (he : ∀ e ∈ events, e ≠ .reset) : (m.run events).Sound := by
  induction events generalizing m with
  | nil => exact h
  | cons e events ih =>
    exact ih (h.step (he e List.mem_cons_self)) fun e' hm => he e' (List.mem_cons_of_mem e hm)

theorem sound_empty {config : Config} (hc : 1 ≤ config.defaultConcurrency) (now : Nat) :
    Sound { now, registry := { config } } :=
  ⟨hc, List.nodup_nil, fun _ => rfl, fun _ => Nat.le_refl _, fun _ => Nat.zero_le _⟩

end Monitor

/-- In every history without a reset the registry knows the number of slots that each provider has held, which is at
most the default. A slot is granted only while fewer are held than the limit of that moment lets in, and one that is
given back is missing from its own provider's, once, and from no other's. -/
theorem slots_counted (config : Config) (hc : 1 ≤ config.defaultConcurrency) (now : Nat) (events : List Event)
    (he : ∀ e ∈ events, e ≠ .reset) :
    let m := ({ now, registry := { config } } : Monitor).run events
    (∀ p, (m.registry.get p).inFlight = m.live p ∧ m.live p ≤ config.defaultConcurrency) ∧
      (∀ p slot timeout, (m.acquire p slot timeout).slots = m.slots ∨
        ∃ wait ≤ timeout, (m.acquire p slot timeout).now = m.now + wait ∧
          m.live p < m.registry.recommended (m.now + wait) p ∧
          (m.acquire p slot timeout).slots = m.slots.filter (·.1 != slot) ++ [(slot, p)]) ∧
      ∀ slot p, m.holder? slot = some p → ∀ q,
        m.live q = (m.drop slot).live q + (if q = p then 1 else 0) ∧
          (m.registry.get q).inFlight = ((m.drop slot).registry.get q).inFlight + if q = p then 1 else 0 := by
  intro m
  have hm : m.Sound := (Monitor.sound_empty hc now).run he
  have hconfig : m.registry.config = config := Monitor.config_run _ events
  refine ⟨fun p => ⟨hm.exact p, hconfig ▸ hm.full p⟩, fun p slot timeout => ?_, fun slot p hh q => ?_⟩
  · obtain hnone | ⟨wait, hwait, registry, ha, hgranted⟩ := m.acquire_cases p slot timeout
    · exact .inl (by rw [hnone])
    · have hlt := Registry.lt_of_acquire? ha
      rw [show (m.registry.get p).inFlight = m.live p from hm.exact p] at hlt
      refine .inr ⟨wait, hwait, ?_, hlt, ?_⟩
      · rw [hgranted]
        exact Monitor.now_drop _ slot
      · rw [hgranted]
        exact congrArg (· ++ [(slot, p)]) (Monitor.slots_drop _ slot)
  · have hone := Monitor.live_drop hm.names hh q
    have hleft : ((m.drop slot).registry.get q).inFlight = (m.drop slot).live q := (hm.drop slot).exact q
    refine ⟨hone, ?_⟩
    rw [hleft, ← hone]
    exact hm.exact q

/-- Two slots of a provider are held when rate limits halve its recommendation; one of them is given back, and another
caller waits until the window has passed. -/
def halved : List Event :=
  [.acquire "p" "a" 0, .acquire "p" "b" 0, .acquire "q" "c" 0, .rateLimit "p", .rateLimit "p", .rateLimit "p",
    .release "a", .acquire "p" "d" 5000, .acquire "p" "d" 60000]

theorem slots_counted_halved :
    let config : Config := ⟨3, 3600000, 3, 60000, 2⟩
    let m := ({ registry := { config } } : Monitor).run halved
    1 ≤ config.defaultConcurrency ∧ (∀ e ∈ halved, e ≠ .reset) ∧ m.now = 60000 ∧
      (m.registry.get "p").inFlight = m.live "p" ∧ m.live "p" = 2 ∧ m.holder? "d" = some "p" ∧
      m.live "p" = (m.drop "d").live "p" + 1 := by
  have hevents : ∀ e ∈ halved, e ≠ .reset := by decide
  obtain ⟨hcount, -, hdrop⟩ := slots_counted ⟨3, 3600000, 3, 60000, 2⟩ (by decide) 0 halved hevents
  have hheld : (({ registry := { config := ⟨3, 3600000, 3, 60000, 2⟩ } } : Monitor).run halved).holder? "d" = some "p" := by
    decide +kernel
  exact ⟨by decide, hevents, by decide +kernel, (hcount "p").1, by decide +kernel, hheld, (hdrop "d" "p" hheld "p").1⟩

end CodeIndex.Health
