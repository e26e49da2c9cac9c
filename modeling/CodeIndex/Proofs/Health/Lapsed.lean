import CodeIndex.Proofs.Health.Held
import Mathlib.Data.List.Induction

/-!
Slots that outlive a reset. A reset forgets all counts, but not the slots that are held; one of these is given back by
its provider's name alone, so it is counted off from whatever that provider has counted since. The count is never more
than the number of slots taken since the last reset, and it falls behind just when an older slot is given back while
calls are counted.
-/

namespace CodeIndex.Health.Monitor

variable {m : Monitor} {slot p : String} {recent : List (String × String)}

/-- The slots held that were taken since the last reset, after one more event. -/
def taken (m : Monitor) (recent : List (String × String)) : Event → List (String × String)
  | .reset => []
  | .acquire p slot timeout =>
    if (m.wait? p timeout).isSome then recent.filter (·.1 != slot) ++ [(slot, p)] else recent
  | .release slot => recent.filter (·.1 != slot)
  | _ => recent

/-- The slots held that were taken since the last reset, after a history. -/
def takenSinceReset (m : Monitor) (recent : List (String × String)) : List Event → List (String × String)
  | [] => recent
  | e :: events => takenSinceReset (m.step e) (m.taken recent e) events

/-- Giving back a slot from before the last reset, while its provider has calls counted. -/
def Undercuts (m : Monitor) (recent : List (String × String)) (slot : String) : Prop :=
  ∃ p, m.holder? slot = some p ∧ slot ∉ recent.map (·.1) ∧ 0 < (m.registry.get p).inFlight

/-- An event that gives back a slot from before the last reset while its provider has calls counted. A caller who keeps
a new slot under the name of an old one gives the old one back, once the new one is counted. -/
def Lapses (m : Monitor) (recent : List (String × String)) : Event → Prop
  | .release slot => m.Undercuts recent slot
  | .acquire p slot timeout =>
    ∃ wait registry, m.wait? p timeout = some wait ∧ m.registry.acquire? (m.now + wait) p = some registry ∧
      Undercuts { m with registry } recent slot
  | _ => False

theorem run_snoc (m : Monitor) (past : List Event) (e : Event) : m.run (past ++ [e]) = (m.run past).step e :=
  List.foldl_append

theorem takenSinceReset_snoc (m : Monitor) (recent : List (String × String)) (past : List Event) (e : Event) :
    m.takenSinceReset recent (past ++ [e]) = (m.run past).taken (m.takenSinceReset recent past) e := by
  induction past generalizing m recent with
  | nil => rfl
  | cons first past ih => exact ih (m.step first) (m.taken recent first)

/-- Whether a caller gets a slot is told by how long it waits. -/
theorem acquire_of_wait? (m : Monitor) (p slot : String) (timeout : Nat) :
    (m.wait? p timeout = none ∧ m.acquire p slot timeout = { m with now := m.now + timeout }) ∨
      ∃ wait registry, m.wait? p timeout = some wait ∧ m.registry.acquire? (m.now + wait) p = some registry ∧
        m.acquire p slot timeout = hold { m with now := m.now + wait } registry p slot := by
  cases hw : m.wait? p timeout with
  | none =>
    refine .inl ⟨rfl, ?_⟩
    simp only [acquire, hw]
  | some wait =>
    have hpoll : (m.registry.get p).pollWait? m.registry.config m.now = some wait := by
      unfold wait? at hw
      split at hw
      · rename_i w hp
        rw [Option.ite_none_right_eq_some] at hw
        rw [hp, hw.2]
      · cases hw
    obtain ⟨registry, ha⟩ := Option.isSome_iff_exists.1 (Registry.acquire?_isSome_of_pollWait? hpoll (Nat.le_refl _))
    refine .inr ⟨wait, registry, rfl, ha, ?_⟩
    simp only [acquire, hw, ha]
    rfl

/-- The slots taken since the last reset are the last ones of all slots held, and slots go by names of their own. -/
structure Parted (slots recent : List (String × String)) : Prop where
  names : (slots.map (·.1)).Nodup
  held : ∃ old, slots = old ++ recent

namespace Parted

theorem drop (h : Parted m.slots recent) (slot : String) :
    Parted (m.drop slot).slots (recent.filter (·.1 != slot)) := by
  obtain ⟨old, hs⟩ := h.held
  exact ⟨names_drop h.names slot, old.filter (·.1 != slot), by rw [slots_drop, hs, List.filter_append]⟩

theorem hold (h : Parted m.slots recent) (registry : Registry) (p slot : String) :
    Parted (m.hold registry p slot).slots (recent.filter (·.1 != slot) ++ [(slot, p)]) := by
  obtain ⟨old, hs⟩ := (Parted.drop (m := { m with registry }) h slot).held
  refine ⟨names_hold h.names registry p slot, old, ?_⟩
  change _ ++ [(slot, p)] = _
  rw [hs, List.append_assoc]

/-- A name under which no slot is held is no recent slot's either. -/
theorem filter_of_unheld (h : Parted m.slots recent) (hh : m.holder? slot = none) :
    recent.filter (·.1 != slot) = recent := by
  obtain ⟨old, hs⟩ := h.held
  refine List.filter_eq_self.2 fun x hx => bne_iff_ne.2 fun he => ?_
  refine List.find?_eq_none.1 (Option.map_eq_none_iff.1 hh) x ?_ (beq_iff_eq.2 he)
  rw [hs]
  exact List.mem_append_right old hx

/-- A slot that is given back is missing from those taken since the last reset, if it is one of them. -/
theorem countP_filter (h : Parted m.slots recent) (hh : m.holder? slot = some p) (q : String) :
    recent.countP (·.2 == q) = (recent.filter (·.1 != slot)).countP (·.2 == q) +
      if q = p ∧ slot ∈ recent.map (·.1) then 1 else 0 := by
  obtain ⟨old, hs⟩ := h.held
  have hnames := h.names
  rw [hs, List.map_append, List.nodup_append] at hnames
  obtain ⟨-, hrecent, hapart⟩ := hnames
  by_cases hslot : slot ∈ recent.map (·.1)
  · -- no older slot goes by that name, so the slot is found in a monitor that holds the recent ones only
    have hold : old.find? (·.1 == slot) = none := by
      refine List.find?_eq_none.2 fun x hx hb => ?_
      exact hapart x.1 (List.mem_map_of_mem hx) slot hslot (beq_iff_eq.1 hb)
    have hholder : holder? { m with slots := recent } slot = some p := by
      rw [holder?, hs, List.find?_append, hold, Option.none_or] at hh
      exact hh
    have hlive := live_drop (m := { m with slots := recent }) hrecent hholder q
    rw [live, live, slots_drop] at hlive
    rw [hlive]
    simp only [hslot, and_true]
  · have hkept : recent.filter (·.1 != slot) = recent :=
      List.filter_eq_self.2 fun x hx => bne_iff_ne.2 fun he => hslot (he ▸ List.mem_map_of_mem hx)
    rw [hkept, if_neg fun hc => hslot hc.2, Nat.add_zero]

end Parted

/-- A registry counts no more slots than those taken since the last reset, and some that are about to be held. -/
def Within (r : Registry) (recent : List (String × String)) (pending : String → Nat) : Prop :=
  ∀ q, (r.get q).inFlight ≤ recent.countP (·.2 == q) + pending q

/-- A registry counts just the slots taken since the last reset, and some that are about to be held. -/
def Exact (r : Registry) (recent : List (String × String)) (pending : String → Nat) : Prop :=
  ∀ q, (r.get q).inFlight = recent.countP (·.2 == q) + pending q

section Drop

variable {pending : String → Nat}

theorem inFlight_drop (hh : m.holder? slot = some p) (q : String) :
    ((m.drop slot).registry.get q).inFlight = (m.registry.get q).inFlight - if q = p then 1 else 0 := by
  rw [drop_held hh]
  exact Registry.release_inFlight m.registry p q

theorem Within.drop (hw : Within m.registry recent pending) (h : Parted m.slots recent) (slot : String) :
    Within (m.drop slot).registry (recent.filter (·.1 != slot)) pending := by
  intro q
  cases hh : m.holder? slot with
  | none =>
    rw [drop_unheld hh, h.filter_of_unheld hh]
    exact hw q
  | some p =>
    have hq := hw q
    rw [h.countP_filter hh q] at hq
    rw [inFlight_drop hh]
    by_cases hp : q = p
    · rw [if_pos hp]
      split at hq <;> omega
    · rw [if_neg hp, Nat.sub_zero]
      rwa [if_neg fun hc => hp hc.1, Nat.add_zero] at hq

/-- Giving a slot back leaves the count exact, unless it is from before the last reset and takes another's place. -/
theorem Exact.drop_iff (hx : Exact m.registry recent pending) (h : Parted m.slots recent) (slot : String) :
    Exact (m.drop slot).registry (recent.filter (·.1 != slot)) pending ↔ ¬ m.Undercuts recent slot := by
  cases hh : m.holder? slot with
  | none =>
    rw [drop_unheld hh, h.filter_of_unheld hh]
    refine iff_of_true hx ?_
    rintro ⟨p, hp, -⟩
    rw [hh] at hp
    cases hp
  | some p =>
    have hone := h.countP_filter hh
    constructor
    · rintro hd ⟨p', hp, hslot, hpos⟩
      obtain rfl : p = p' := Option.some.inj (hh.symm.trans hp)
      have hafter := hd p
      have hbefore := hx p
      rw [inFlight_drop hh, if_pos rfl] at hafter
      rw [hone p, if_neg fun hc => hslot hc.2] at hbefore
      omega
    · intro hnot q
      have hbefore := hx q
      rw [hone q] at hbefore
      rw [inFlight_drop hh]
      by_cases hslot : slot ∈ recent.map (·.1)
      · simp only [hslot, and_true] at hbefore
        omega
      · -- nothing is counted for its provider, so nothing is counted off
        have hzero : (m.registry.get p).inFlight = 0 := by
          by_contra hpos
          exact hnot ⟨p, hh, hslot, Nat.pos_of_ne_zero hpos⟩
        rw [if_neg fun hc => hslot hc.2, Nat.add_zero] at hbefore
        by_cases hq : q = p
        · subst hq
          rw [if_pos rfl, hzero, Nat.zero_sub, ← hbefore, hzero]
        · rw [if_neg hq, Nat.sub_zero, hbefore]

end Drop

section Hold

variable {registry : Registry} {time : Nat}

theorem Within.hold (hw : Within m.registry recent fun _ => 0) (h : Parted m.slots recent)
    (ha : m.registry.acquire? time p = some registry) (slot : String) :
    Within (m.hold registry p slot).registry (recent.filter (·.1 != slot) ++ [(slot, p)]) fun _ => 0 := by
  have hgranted : Within registry recent fun q => if q = p then 1 else 0 := fun q => by
    rw [inFlight_granted ha]
    exact Nat.add_le_add_right (hw q) _
  intro q
  rw [countP_snoc]
  exact Within.drop (m := { m with registry }) hgranted h slot q

theorem Exact.hold_iff (hx : Exact m.registry recent fun _ => 0) (h : Parted m.slots recent)
    (ha : m.registry.acquire? time p = some registry) (slot : String) :
    Exact (m.hold registry p slot).registry (recent.filter (·.1 != slot) ++ [(slot, p)]) (fun _ => 0) ↔
      ¬ Undercuts { m with registry } recent slot := by
  have hgranted : Exact registry recent fun q => if q = p then 1 else 0 := fun q => by
    rw [inFlight_granted ha, hx q, Nat.add_zero]
  rw [← Exact.drop_iff (m := { m with registry }) hgranted h slot]
  refine forall_congr' fun q => ?_
  rw [countP_snoc]
  rfl

end Hold

/-- The slots taken since the last reset are told apart from those before it, and the registry counts no more of them
than there are. -/
structure Followed (m : Monitor) (recent : List (String × String)) : Prop where
  parted : Parted m.slots recent
  within : Within m.registry recent fun _ => 0

/-- What an event does to the slots and to what the registry counts: nothing, everything is forgotten, a slot is given
back, or one is granted. -/
theorem step_cases (m : Monitor) (recent : List (String × String)) (e : Event) :
    (m.taken recent e = recent ∧ ¬ m.Lapses recent e ∧
        ∃ now registry, m.registry.KeepsSlots registry ∧ m.step e = { m with now, registry }) ∨
      (e = .reset ∧ m.taken recent e = []) ∨
      (∃ slot, e = .release slot ∧ m.step e = m.drop slot) ∨
      ∃ p slot timeout wait registry, e = .acquire p slot timeout ∧
        m.taken recent e = recent.filter (·.1 != slot) ++ [(slot, p)] ∧
        m.registry.acquire? (m.now + wait) p = some registry ∧
        m.step e = hold { m with now := m.now + wait } registry p slot ∧
        (m.Lapses recent e ↔ Undercuts { m with registry } recent slot) := by
  cases e with
  | failure p => exact .inl ⟨rfl, id, m.now, _, m.registry.keepsSlots_recordFailure m.now p, rfl⟩
  | rateLimit p => exact .inl ⟨rfl, id, m.now, _, m.registry.keepsSlots_recordRateLimit m.now p, rfl⟩
  | success p => exact .inl ⟨rfl, id, m.now, _, m.registry.keepsSlots_recordSuccess p, rfl⟩
  | reset => exact .inr (.inl ⟨rfl, rfl⟩)
  | glance p => exact .inl ⟨rfl, id, m.now, _, m.registry.keepsSlots_meet p, rfl⟩
  | look p => exact .inl ⟨rfl, id, m.now, _, m.registry.keepsSlots_refresh m.now p, rfl⟩
  | advance ms => exact .inl ⟨rfl, id, m.now + ms, _, .refl m.registry, rfl⟩
  | release slot => exact .inr (.inr (.inl ⟨slot, rfl, rfl⟩))
  | acquire p slot timeout =>
    obtain ⟨hw, hnone⟩ | ⟨wait, registry, hw, ha, hgranted⟩ := m.acquire_of_wait? p slot timeout
    · refine .inl ⟨?_, ?_, m.now + timeout, m.registry, .refl m.registry, hnone⟩
      · simp only [taken, hw, Option.isSome_none, Bool.false_eq_true, if_false]
      · rintro ⟨wait, registry, hwait, -⟩
        rw [hw] at hwait
        cases hwait
    · refine .inr (.inr (.inr ⟨p, slot, timeout, wait, registry, rfl, ?_, ha, hgranted, ?_⟩))
      · simp only [taken, hw, Option.isSome_some, if_true]
      · constructor
        · rintro ⟨wait', registry', hw', ha', hu⟩
          obtain rfl : wait = wait' := Option.some.inj (hw.symm.trans hw')
          obtain rfl : registry = registry' := Option.some.inj (ha.symm.trans ha')
          exact hu
        · exact fun hu => ⟨wait, registry, hw, ha, hu⟩

theorem Followed.step (h : m.Followed recent) (e : Event) : (m.step e).Followed (m.taken recent e) := by
  obtain ⟨ht, -, now, registry, hr, hs⟩ | ⟨rfl, -⟩ | ⟨slot, rfl, hs⟩ |
    ⟨p, slot, timeout, wait, registry, rfl, ht, ha, hs, -⟩ := m.step_cases recent e
  · rw [ht, hs]
    exact ⟨h.parted, fun q => Nat.le_trans (Nat.le_of_eq (hr.inFlight q)) (h.within q)⟩
  · exact ⟨⟨h.parted.names, m.slots, (List.append_nil _).symm⟩, fun _ => Nat.le_refl 0⟩
  · rw [hs]
    exact ⟨h.parted.drop slot, h.within.drop h.parted slot⟩
  · rw [ht, hs]
    exact ⟨Parted.hold (m := { m with now := m.now + wait }) h.parted registry p slot,
      Within.hold (m := { m with now := m.now + wait }) h.within h.parted ha slot⟩

/-- An event leaves the count exact, unless it gives back a slot that takes another's place. -/
theorem Exact.step_iff (hx : Exact m.registry recent fun _ => 0) (h : Parted m.slots recent) (e : Event) :
    Exact (m.step e).registry (m.taken recent e) (fun _ => 0) ↔ ¬ m.Lapses recent e := by
  obtain ⟨ht, hl, now, registry, hr, hs⟩ | ⟨rfl, -⟩ | ⟨slot, rfl, hs⟩ |
    ⟨p, slot, timeout, wait, registry, rfl, ht, ha, hs, hl⟩ := m.step_cases recent e
  · rw [ht, hs]
    exact iff_of_true (fun q => (hr.inFlight q).trans (hx q)) hl
  · exact iff_of_true (fun q => rfl) id
  · rw [hs]
    exact hx.drop_iff h slot
  · rw [ht, hs, hl]
    exact Exact.hold_iff (m := { m with now := m.now + wait }) hx h ha slot

theorem followed_run (config : Config) (now : Nat) (events : List Event) :
    let start : Monitor := { now, registry := { config } }
    (start.run events).Followed (start.takenSinceReset [] events) := by
  intro start
  induction events using List.reverseRecOn with
  | nil => exact ⟨⟨List.nodup_nil, [], rfl⟩, fun _ => Nat.le_refl 0⟩
  | append_singleton past e ih =>
    rw [run_snoc, takenSinceReset_snoc]
    exact ih.step e

end CodeIndex.Health.Monitor

namespace CodeIndex.Health

/-- In every history with resets, the slots taken since the last one are among those held, and a provider's count is at
most their number. A slot from before the last reset is counted off like any other when it is given back, though it is
not one of them; and the count is their number all along just when no such slot is given back while its provider has
calls counted. -/
theorem late_drops_counted (config : Config) (now : Nat) (events : List Event) :
    let start : Monitor := { now, registry := { config } }
    let m := start.run events
    let recent := start.takenSinceReset [] events
    ((∃ old, m.slots = old ++ recent) ∧ ∀ p, (m.registry.get p).inFlight ≤ recent.countP (·.2 == p)) ∧
      (∀ slot p, m.holder? slot = some p → slot ∉ recent.map (·.1) →
        m.taken recent (.release slot) = recent ∧ ∀ q, ((m.step (.release slot)).registry.get q).inFlight =
          (m.registry.get q).inFlight - if q = p then 1 else 0) ∧
      ((∀ past, past <+: events → ∀ p, ((start.run past).registry.get p).inFlight =
          (start.takenSinceReset [] past).countP (·.2 == p)) ↔
        ∀ past e, past ++ [e] <+: events → ¬ (start.run past).Lapses (start.takenSinceReset [] past) e) := by
  intro start m recent
  have hm : m.Followed recent := Monitor.followed_run config now events
  refine ⟨⟨hm.parted.held, hm.within⟩, fun slot p hh hslot => ⟨?_, Monitor.inFlight_drop hh⟩,
    fun hexact past e hp => ?_, fun hnone past => ?_⟩
  · exact List.filter_eq_self.2 fun x hx => bne_iff_ne.2 fun he => hslot (he ▸ List.mem_map_of_mem hx)
  · have hbefore := hexact past ((List.prefix_append past [e]).trans hp)
    have hafter := hexact (past ++ [e]) hp
    rw [Monitor.run_snoc, Monitor.takenSinceReset_snoc] at hafter
    have hstep := Monitor.Exact.step_iff hbefore (Monitor.followed_run config now past).parted e
    exact hstep.1 hafter
  · induction past using List.reverseRecOn with
    | nil => exact fun _ _ => rfl
    | append_singleton past e ih =>
      intro hp
      have hbefore := ih ((List.prefix_append past [e]).trans hp)
      rw [Monitor.run_snoc, Monitor.takenSinceReset_snoc]
      have hstep := Monitor.Exact.step_iff hbefore (Monitor.followed_run config now past).parted e
      exact hstep.2 (hnone past e hp)

/-- A slot is taken before a reset and another after it. -/
def overtaken : List Event := [.acquire "p" "a" 0, .reset, .acquire "p" "b" 0]

theorem late_drops_counted_overtaken :
    let start : Monitor := { registry := { config := ⟨3, 3600000, 3, 60000, 1⟩ } }
    let m := start.run overtaken
    m.holder? "a" = some "p" ∧ "a" ∉ (start.takenSinceReset [] overtaken).map (·.1) ∧
      (m.registry.get "p").inFlight = 1 ∧ ((m.step (.release "a")).registry.get "p").inFlight = 0 := by
  intro start m
  have hheld : m.holder? "a" = some "p" := by decide +kernel
  have hold : "a" ∉ (start.takenSinceReset [] overtaken).map (·.1) := by decide +kernel
  have hone : (m.registry.get "p").inFlight = 1 := by decide +kernel
  obtain ⟨-, hlate, -⟩ := late_drops_counted ⟨3, 3600000, 3, 60000, 1⟩ 0 overtaken
  have hafter := (hlate "a" "p" hheld hold).2 "p"
  refine ⟨hheld, hold, hone, hafter.trans ?_⟩
  rw [if_pos rfl]
  exact congrArg (· - 1) hone

/-- Once the first slot is given back, the second is held but no longer counted, and a provider that is given one call
at a time is given another. -/
theorem late_drop_uncounts :
    let start : Monitor := { registry := { config := ⟨3, 3600000, 3, 60000, 1⟩ } }
    let events := overtaken ++ [.release "a"]
    let m := start.run events
    m.slots = [("b", "p")] ∧ start.takenSinceReset [] events = [("b", "p")] ∧
      (m.registry.get "p").inFlight ≠ (start.takenSinceReset [] events).countP (·.2 == "p") ∧
      (m.acquire "p" "c" 0).slots = [("b", "p"), ("c", "p")] := by
  decide +kernel

end CodeIndex.Health
