import CodeIndex.Proofs.Health.Discipline

/-!
What bears on what. The circuit of a provider is decided by its failures and successes and by resets, its limits by its
rate limits and by resets, and both by the times of these. All else that happens leaves no trace: looks bring limits
up to date, but limits that are brought up to date later come out the same.
-/

namespace CodeIndex.Health

namespace Entry

variable {c : Config} {now t : Nat} {e a : Entry}

/-- What an entry tells of rate limits at a moment. -/
def limits (c : Config) (now : Nat) (e : Entry) : List Nat × Option Nat × Nat :=
  ((e.decay c now).rateLimits, e.lastRateLimit, (e.decay c now).recommended)

theorem limits_decay (h : now ≤ t) : (e.decay c now).limits c t = e.limits c t := by
  unfold limits
  rw [decay_decay h]
  rfl

theorem limits_congr (hhits : e.rateLimits = a.rateLimits) (hlast : e.lastRateLimit = a.lastRateLimit)
    (hrecommended : e.recommended = a.recommended) (t : Nat) : e.limits c t = a.limits c t := by
  unfold limits decay
  rw [hhits, hlast, hrecommended]

/-- What is told of rate limits later follows from what is told now. -/
theorem limits_later (h : now ≤ t) (he : e.limits c now = a.limits c now) : e.limits c t = a.limits c t := by
  rw [← limits_decay (e := e) h, ← limits_decay (e := a) h]
  obtain ⟨hhits, hrest⟩ := Prod.ext_iff.1 he
  obtain ⟨hlast, hrecommended⟩ := Prod.ext_iff.1 hrest
  exact limits_congr hhits hlast hrecommended t

theorem circuit_congr (h : e.breaker = a.breaker) (t : Nat) : e.circuit c t = a.circuit c t := by
  obtain ⟨hfailures, hlast⟩ := Prod.ext_iff.1 h
  simp only [breaker] at hfailures hlast
  unfold circuit
  rw [hfailures, hlast]

theorem breaker_recordFailure (h : e.breaker = a.breaker) (now : Nat) :
    (e.recordFailure c now).breaker = (a.recordFailure c now).breaker := by
  obtain ⟨hfailures, hlast⟩ := Prod.ext_iff.1 h
  simp only [breaker] at hfailures hlast
  simp only [breaker, recordFailure, circuit_congr h now, hfailures, hlast]

theorem breaker_recordSuccess (h : e.breaker = a.breaker) : e.recordSuccess.breaker = a.recordSuccess.breaker := by
  obtain ⟨hfailures, hlast⟩ := Prod.ext_iff.1 h
  simp only [breaker] at hfailures hlast
  unfold recordSuccess
  rw [hfailures]
  split
  · rfl
  · exact h

theorem limits_recordRateLimit (h : e.limits c now = a.limits c now) (ht : now ≤ t) :
    (e.recordRateLimit c now).limits c t = (a.recordRateLimit c now).limits c t := by
  refine limits_later ht ?_
  obtain ⟨hhits, -, hrecommended⟩ : (e.decay c now).rateLimits = (a.decay c now).rateLimits ∧
      e.lastRateLimit = a.lastRateLimit ∧ (e.decay c now).recommended = (a.decay c now).recommended := by
    simpa only [limits, Prod.mk.injEq] using h
  simp only [recordRateLimit, hhits, hrecommended]
  split <;> rfl

/-- What one event makes of an entry, if it concerns it at all. -/
def book (c : Config) (e : Entry) : Nat × Event → Entry
  | (now, .failure _) => e.recordFailure c now
  | (now, .rateLimit _) => e.recordRateLimit c now
  | (_, .success _) => e.recordSuccess
  | (_, .reset) => fresh c
  | _ => e

end Entry

namespace Event

instance (p : String) : DecidablePred (bears p)
  | .failure q | .success q => inferInstanceAs (Decidable (q = p))
  | .reset => inferInstanceAs (Decidable True)
  | .rateLimit _ | .glance _ | .look _ | .advance _ | .acquire .. | .release _ => inferInstanceAs (Decidable False)

/-- Whether an event bears on a provider's limits. -/
def throttles (p : String) : Event → Prop
  | .rateLimit q => q = p
  | .reset => True
  | _ => False

instance (p : String) : DecidablePred (throttles p)
  | .rateLimit q => inferInstanceAs (Decidable (q = p))
  | .reset => inferInstanceAs (Decidable True)
  | .failure _ | .success _ | .glance _ | .look _ | .advance _ | .acquire .. | .release _ =>
    inferInstanceAs (Decidable False)

end Event

namespace Registry

variable {r r' : Registry} {p q : String} {now t : Nat}

theorem limits_set (r : Registry) {q : String} {e : Entry} (he : e.limits r.config t = (r.get q).limits r.config t)
    (p : String) : ((r.set q e).get p).limits r.config t = (r.get p).limits r.config t := by
  by_cases hp : p = q
  · rw [hp, get_set_same, he]
  · rw [get_set_other r e hp]

theorem limits_acquire (ha : r.acquire? now q = some r') (ht : now ≤ t) (p : String) :
    (r'.get p).limits r.config t = (r.get p).limits r.config t := by
  simp only [acquire?, Option.ite_none_right_eq_some] at ha
  obtain ⟨-, ha⟩ := ha
  cases ha
  refine limits_set r ?_ p
  exact Entry.limits_decay ht

end Registry

namespace Monitor

variable {m : Monitor} {p : String} {t : Nat}

theorem get_rateLimit (m : Monitor) (p : String) :
    (m.step (.rateLimit p)).registry.get p = (m.registry.get p).recordRateLimit m.registry.config m.now :=
  Registry.get_update_same _ p _

theorem limits_drop (m : Monitor) (slot p : String) (t : Nat) :
    ((m.drop slot).registry.get p).limits m.registry.config t = (m.registry.get p).limits m.registry.config t := by
  unfold drop
  split
  · refine Registry.limits_set m.registry ?_ p
    rfl
  · rfl

/-- Every other event leaves alone what the registry will tell of a provider's rate limits. -/
theorem limits_step {e : Event} (he : ¬ e.throttles p) (ht : (m.step e).now ≤ t) :
    ((m.step e).registry.get p).limits m.registry.config t = (m.registry.get p).limits m.registry.config t := by
  cases e with
  | failure q =>
    refine Registry.limits_set m.registry ?_ p
    rfl
  | rateLimit q => rw [show (m.step (.rateLimit q)).registry.get p = m.registry.get p from
      Registry.get_update_other _ _ (Ne.symm he)]
  | success q =>
    refine Registry.limits_set m.registry ?_ p
    unfold Entry.recordSuccess
    split <;> rfl
  | reset => exact absurd trivial he
  | glance q => exact Registry.limits_set m.registry rfl p
  | look q => exact Registry.limits_set m.registry (Entry.limits_decay ht) p
  | advance ms => rfl
  | acquire q slot timeout =>
    change ((m.acquire q slot timeout).registry.get p).limits _ t = _
    replace ht : (m.acquire q slot timeout).now ≤ t := ht
    obtain hnone | ⟨wait, -, registry, ha, hgranted⟩ := m.acquire_cases q slot timeout
    · rw [hnone]
    · rw [hgranted] at ht ⊢
      have hheld := now_drop { m with now := m.now + wait, registry } slot
      have hnow : m.now + wait ≤ t := Nat.le_trans (Nat.le_of_eq hheld.symm) ht
      have hconfig : registry.config = m.registry.config := (Registry.acquire?_eq_some ha).1
      have hdrop := limits_drop { m with now := m.now + wait, registry } slot p t
      rw [hconfig] at hdrop
      exact hdrop.trans (Registry.limits_acquire ha hnow p)
  | release slot => exact limits_drop m slot p t

/-- What an event makes of all that the registry will tell of a provider's rate limits. -/
theorem limits_cases (m : Monitor) (p : String) (e : Event) :
    (e = .rateLimit p ∧ (m.step e).registry.get p = (m.registry.get p).recordRateLimit m.registry.config m.now) ∨
      (e = .reset ∧ (m.step e).registry.get p = .fresh m.registry.config) ∨
      (¬ e.throttles p ∧ ∀ t, (m.step e).now ≤ t →
        ((m.step e).registry.get p).limits m.registry.config t = (m.registry.get p).limits m.registry.config t) := by
  by_cases he : e.throttles p
  · cases e with
    | rateLimit q =>
      obtain rfl : q = p := he
      exact .inl ⟨rfl, get_rateLimit m q⟩
    | reset => exact .inr (.inl ⟨rfl, rfl⟩)
    | _ => exact he.elim
  · exact .inr (.inr ⟨he, fun _ => limits_step he⟩)

/-- The state at a time: that after all events that have ended by then. -/
def stateAt (m : Monitor) (t : Nat) : List Event → Monitor
  | [] => m
  | e :: events => if (m.step e).now ≤ t then stateAt (m.step e) t events else m

theorem now_stateAt_le (h : m.now ≤ t) (events : List Event) : (m.stateAt t events).now ≤ t := by
  induction events generalizing m with
  | nil => exact h
  | cons e events ih =>
    unfold stateAt
    split
    · rename_i hle
      exact ih hle
    · exact h

theorem now_le_of_mem_timed {which : Event → Prop} [DecidablePred which] {events : List Event} {x : Nat × Event}
    (hx : x ∈ m.timed which events) : m.now ≤ x.1 := by
  induction events generalizing m with
  | nil => cases hx
  | cons e events ih =>
    unfold timed at hx
    split at hx
    · rcases List.mem_cons.1 hx with rfl | hx
      · exact Nat.le_refl _
      · exact Nat.le_trans (now_le_step m e) (ih hx)
    · exact Nat.le_trans (now_le_step m e) (ih hx)

/-- A kind of event that alone bears on what an entry is known by: each takes no time and does to all entries that are
known alike the same, and all other events change nothing. -/
structure Decides (which : Event → Prop) (Known : Monitor → Entry → Prop) (c : Config) : Prop where
  instant : ∀ (m : Monitor) (e : Event), which e → (m.step e).now = m.now
  booked : ∀ {m : Monitor} {a : Entry} {e : Event}, which e → Known m a → Known (m.step e) (a.book c (m.now, e))
  other : ∀ {m : Monitor} {a : Entry} {e : Event}, ¬ which e → Known m a → Known (m.step e) a

/-- What is known at a time follows from the events that decide it, up to then. -/
theorem Decides.stateAt {which : Event → Prop} [DecidablePred which] {Known : Monitor → Entry → Prop} {c : Config}
    (hd : Decides which Known c) {a : Entry} (h : Known m a) (ht : m.now ≤ t) (events : List Event) :
    Known (m.stateAt t events) (((m.timed which events).filter fun x => x.1 ≤ t).foldl (Entry.book c) a) := by
  induction events generalizing m a with
  | nil => exact h
  | cons e events ih =>
    unfold Monitor.stateAt timed
    by_cases hw : which e
    · have hnow : (m.step e).now ≤ t := (hd.instant m e hw).symm ▸ ht
      rw [if_pos hw, if_pos hnow, List.filter_cons_of_pos (by simpa using ht)]
      exact ih (hd.booked hw h) hnow
    · rw [if_neg hw]
      by_cases hnow : (m.step e).now ≤ t
      · rw [if_pos hnow]
        exact ih (hd.other hw h) hnow
      · have hlate : ((m.step e).timed which events).filter (fun x => x.1 ≤ t) = [] := by
          refine List.filter_eq_nil_iff.2 fun x hx => ?_
          have := now_le_of_mem_timed hx
          simp only [decide_eq_true_eq]
          omega
        rw [if_neg hnow, hlate]
        exact h

/-- An entry that knows the same of failures. -/
def SameBreaker (c : Config) (p : String) (m : Monitor) (a : Entry) : Prop :=
  m.registry.config = c ∧ (m.registry.get p).breaker = a.breaker

/-- An entry that tells the same of rate limits from now on. -/
def SameLimits (c : Config) (p : String) (m : Monitor) (a : Entry) : Prop :=
  m.registry.config = c ∧ ∀ t, m.now ≤ t → (m.registry.get p).limits c t = a.limits c t

theorem decides_breaker (c : Config) (p : String) : Decides (Event.bears p) (SameBreaker c p) c where
  instant m e he := by
    cases e with
    | failure q | success q | reset => rfl
    | _ => exact he.elim
  booked := by
    rintro m a e he ⟨rfl, h⟩
    refine ⟨config_step m e, ?_⟩
    rcases breaker_cases m p e with ⟨rfl, hget⟩ | ⟨rfl, hget⟩ | ⟨rfl, -⟩ | ⟨hnot, -⟩
    · rw [hget]
      exact Entry.breaker_recordFailure h m.now
    · rw [hget]
      exact Entry.breaker_recordSuccess h
    · rfl
    · exact absurd he hnot
  other he h := ⟨(config_step _ _).trans h.1, (breaker_step he).trans h.2⟩

theorem decides_limits (c : Config) (p : String) : Decides (Event.throttles p) (SameLimits c p) c where
  instant m e he := by
    cases e with
    | rateLimit q | reset => rfl
    | _ => exact he.elim
  booked := by
    rintro m a e he ⟨rfl, h⟩
    refine ⟨config_step m e, fun t ht => ?_⟩
    rcases limits_cases m p e with ⟨rfl, hget⟩ | ⟨rfl, -⟩ | ⟨hnot, -⟩
    · rw [hget]
      exact Entry.limits_recordRateLimit (h m.now (Nat.le_refl _)) ht
    · rfl
    · exact absurd he hnot
  other := by
    rintro m a e he ⟨rfl, h⟩
    exact ⟨config_step m e, fun t ht => (limits_step he ht).trans (h t (Nat.le_trans (now_le_step m e) ht))⟩

end Monitor

/-- Two histories with the same failures and successes of a provider and the same resets, at the same times, leave its
circuit and its count of failures alike at every time; two with the same rate limits of the provider and the same resets
leave its recommendation and its count of rate limits alike. Nothing else in them matters. A history may end anywhere,
so this holds between two events of one moment as well. -/
theorem breaker_limiter_independent (config : Config) (now : Nat) (p : String) (as bs : List Event) :
    let start : Monitor := { now, registry := { config } }
    (start.timed (Event.bears p) as = start.timed (Event.bears p) bs → ∀ t, now ≤ t →
        (start.stateAt t as).registry.circuit t p = (start.stateAt t bs).registry.circuit t p ∧
          ((start.stateAt t as).registry.snapshot t p).failures = ((start.stateAt t bs).registry.snapshot t p).failures) ∧
      (start.timed (Event.throttles p) as = start.timed (Event.throttles p) bs → ∀ t, now ≤ t →
        (start.stateAt t as).registry.recommended t p = (start.stateAt t bs).registry.recommended t p ∧
          ((start.stateAt t as).registry.snapshot t p).rateLimitHits =
            ((start.stateAt t bs).registry.snapshot t p).rateLimitHits) := by
  intro start
  refine ⟨fun hsame t ht => ?_, fun hsame t ht => ?_⟩
  · have hfresh : Monitor.SameBreaker config p start (.fresh config) := ⟨rfl, rfl⟩
    obtain ⟨hca, ha⟩ := (Monitor.decides_breaker config p).stateAt hfresh ht as
    obtain ⟨hcb, hb⟩ := (Monitor.decides_breaker config p).stateAt hfresh ht bs
    rw [← hsame] at hb
    have hboth := ha.trans hb.symm
    refine ⟨?_, (Prod.ext_iff.1 hboth).1⟩
    unfold Registry.circuit
    rw [hca, hcb]
    exact Entry.circuit_congr hboth t
  · have hfresh : Monitor.SameLimits config p start (.fresh config) := ⟨rfl, fun _ _ => rfl⟩
    obtain ⟨hca, ha⟩ := (Monitor.decides_limits config p).stateAt hfresh ht as
    obtain ⟨hcb, hb⟩ := (Monitor.decides_limits config p).stateAt hfresh ht bs
    have hboth := (ha t (Monitor.now_stateAt_le ht as)).trans (hsame ▸ (hb t (Monitor.now_stateAt_le ht bs)).symm)
    simp only [Entry.limits, Prod.mk.injEq] at hboth
    unfold Registry.recommended Registry.snapshot
    rw [hca, hcb]
    exact ⟨hboth.2.2, congrArg List.length hboth.1⟩

/-- Failures and rate limits of a provider. -/
def bare : List Event := [.failure "p", .rateLimit "p", .advance 700, .rateLimit "p", .failure "p"]

/-- The same in a bustle of looks, slots and another provider. -/
def bustling : List Event :=
  [.glance "p", .failure "p", .look "p", .rateLimit "p", .acquire "p" "a" 0, .advance 300, .look "p", .failure "q",
    .advance 400, .rateLimit "p", .release "a", .failure "p", .success "q", .look "p"]

theorem breaker_limiter_independent_bustling :
    let start : Monitor := { registry := { config := ⟨2, 1000, 2, 60000, 8⟩ } }
    start.timed (Event.bears "p") bare = start.timed (Event.bears "p") bustling ∧
      start.timed (Event.throttles "p") bare = start.timed (Event.throttles "p") bustling ∧
      (start.stateAt 1000 bare).registry.circuit 1000 "p" = .opened ∧
      (start.stateAt 1000 bustling).registry.circuit 1000 "p" = .opened ∧
      (start.stateAt 1000 bare).registry.recommended 1000 "p" = 4 ∧
      (start.stateAt 1000 bustling).registry.recommended 1000 "p" = 4 := by
  intro start
  obtain ⟨hbreaker, hlimits⟩ := breaker_limiter_independent ⟨2, 1000, 2, 60000, 8⟩ 0 "p" bare bustling
  have hbears : start.timed (Event.bears "p") bare = start.timed (Event.bears "p") bustling := by decide +kernel
  have hthrottles : start.timed (Event.throttles "p") bare = start.timed (Event.throttles "p") bustling := by
    decide +kernel
  have hopened : (start.stateAt 1000 bare).registry.circuit 1000 "p" = .opened := by decide +kernel
  have hhalved : (start.stateAt 1000 bare).registry.recommended 1000 "p" = 4 := by decide +kernel
  exact ⟨hbears, hthrottles, hopened, (hbreaker hbears 1000 (by decide)).1.symm.trans hopened, hhalved,
    (hlimits hthrottles 1000 (by decide)).1.symm.trans hhalved⟩

end CodeIndex.Health
