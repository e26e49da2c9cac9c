import CodeIndex.Health.Registry

/-!
Slots of a registry. Every booking leaves the slots in use as they are and every limit at one or more; taking a slot
and giving it back change the count of one provider by one. A caller who was told when to look again finds a slot
then, and one who finds a provider without calls under way needs to be told nothing.
-/

namespace CodeIndex.Health

namespace Entry

variable {c : Config} {e : Entry} {now : Nat}

/-- Whether the last rate limit is a whole window ago. -/
def quiet (c : Config) (now : Nat) (e : Entry) : Bool := e.lastRateLimit.all fun t => c.rateLimitWindowMs ≤ now - t

theorem quiet_mono {later : Nat} (h : now ≤ later) (hq : e.quiet c now = true) : e.quiet c later = true := by
  unfold quiet at hq ⊢
  cases hl : e.lastRateLimit with
  | none => rfl
  | some t =>
    rw [hl] at hq
    simp only [Option.all_some, decide_eq_true_eq] at hq ⊢
    omega

theorem recommended_decay (c : Config) (now : Nat) (e : Entry) :
    (e.decay c now).recommended =
      if e.recommended < c.defaultConcurrency ∧ e.quiet c now = true then c.defaultConcurrency else e.recommended := by
  unfold decay quiet
  cases e.lastRateLimit <;> simp

theorem recommended_decay_pos (hc : 1 ≤ c.defaultConcurrency) (he : 1 ≤ e.recommended) (now : Nat) :
    1 ≤ (e.decay c now).recommended := by
  rw [recommended_decay]
  split <;> assumption

theorem admits_decay : (e.decay c now).admits = true ↔ e.inFlight < (e.decay c now).recommended := by
  rw [admits, decide_eq_true_iff, inFlight_decay]

/-- A wait that was long enough at its start is long enough ever after. -/
theorem recommended_decay_mono {later : Nat} (h : now ≤ later) :
    (e.decay c now).recommended ≤ (e.decay c later).recommended := by
  rw [recommended_decay, recommended_decay]
  by_cases hn : e.recommended < c.defaultConcurrency ∧ e.quiet c now = true
  · simp [hn, quiet_mono h hn.2]
  · rw [if_neg hn]
    split <;> omega

theorem admits_of_pollWait? {since wait : Nat} (h : e.pollWait? c since = some wait) (hw : since + wait ≤ now) :
    (e.decay c now).admits = true := by
  unfold pollWait? at h
  split at h
  · rename_i ha
    have hm := recommended_decay_mono (c := c) (e := e) (show since ≤ now by omega)
    exact admits_decay.2 (Nat.lt_of_lt_of_le (admits_decay.1 ha) hm)
  · split at h
    · rename_i hl
      obtain ⟨t, ht, hr⟩ := Option.map_eq_some_iff.1 h
      have hd := Nat.div_add_mod (t + c.rateLimitWindowMs - since + pollMs - 1) pollMs
      have hq : c.rateLimitWindowMs ≤ now - t ∨ now < t + c.rateLimitWindowMs := by omega
      have hp : pollMs = 250 := rfl
      simp only [admits, decay, ht, Bool.and_eq_true, decide_eq_true_eq]
      rcases hq with hq | hq
      · rw [if_pos ⟨hl.1, hq⟩]
        exact hl.2
      · have hm := Nat.mod_lt (t + c.rateLimitWindowMs - since + pollMs - 1) (show 0 < pollMs by decide)
        rw [hp] at hd hm hr
        omega
    · cases h

theorem pollWait?_of_idle (hc : 1 ≤ c.defaultConcurrency) (he : 1 ≤ e.recommended) (hi : e.inFlight = 0)
    (since : Nat) : e.pollWait? c since = some 0 := by
  have hp := recommended_decay_pos hc he since
  have ha : (e.decay c since).admits = true := admits_decay.2 (by omega)
  rw [pollWait?, if_pos ha]

/-- Bringing limits up to date now makes no difference to those who do so later. -/
theorem decay_decay {later : Nat} (h : now ≤ later) : (e.decay c now).decay c later = e.decay c later := by
  have hlimits : ((e.decay c now).decay c later).rateLimits = (e.decay c later).rateLimits := by
    refine (List.filter_filter ..).trans (List.filter_congr fun t _ => ?_)
    rw [Bool.and_eq_left_iff_imp, decide_eq_true_eq, decide_eq_true_eq]
    omega
  have hrecommended : ((e.decay c now).decay c later).recommended = (e.decay c later).recommended := by
    have hq : (e.decay c now).quiet c later = e.quiet c later := rfl
    rw [recommended_decay, hq, recommended_decay, recommended_decay]
    by_cases hn : e.recommended < c.defaultConcurrency ∧ e.quiet c now = true
    · rw [if_pos hn, ite_self, if_pos ⟨hn.1, quiet_mono h hn.2⟩]
    · rw [if_neg hn]
  unfold decay at hlimits hrecommended ⊢
  rw [Entry.mk.injEq]
  exact ⟨rfl, rfl, hlimits, rfl, hrecommended, rfl⟩

theorem pollWait?_decay : (e.decay c now).pollWait? c now = e.pollWait? c now := by
  unfold pollWait?
  rw [decay_decay (Nat.le_refl now)]
  by_cases ha : (e.decay c now).admits = true
  · rw [if_pos ha, if_pos ha]
  · rw [if_neg ha, if_neg ha]
    rw [admits_decay] at ha
    have hlast : (e.decay c now).lastRateLimit = e.lastRateLimit := rfl
    rw [inFlight_decay, hlast]
    rw [recommended_decay] at ha ⊢
    split at ha
    · -- the limit is back at its default, and still lets nobody in
      rename_i h
      rw [if_neg fun h => ha h.2, if_neg fun h => ha h.2]
    · rename_i h
      rw [if_neg h]

end Entry

namespace Registry

/-- Every provider's limit lets at least one call through. -/
structure Open (r : Registry) : Prop where
  default : 1 ≤ r.config.defaultConcurrency
  recommended : ∀ name, 1 ≤ (r.get name).recommended

/-- Health with no call under way. -/
structure Idle (r : Registry) : Prop extends Open r where
  inFlight : ∀ name, (r.get name).inFlight = 0

/-- Bookings that leave the slots in use as they are. -/
structure KeepsSlots (r r' : Registry) : Prop where
  config : r'.config = r.config
  inFlight : ∀ name, (r'.get name).inFlight = (r.get name).inFlight
  opened : r.Open → r'.Open

theorem KeepsSlots.refl (r : Registry) : r.KeepsSlots r := ⟨rfl, fun _ => rfl, fun h => h⟩

theorem KeepsSlots.trans {a b d : Registry} (h : a.KeepsSlots b) (k : b.KeepsSlots d) : a.KeepsSlots d :=
  ⟨k.config.trans h.config, fun name => (k.inFlight name).trans (h.inFlight name), fun o => k.opened (h.opened o)⟩

theorem get_update_same (r : Registry) (name : String) (f : Entry → Entry) :
    (r.update name f).get name = f (r.get name) := get_set_same r name _

theorem get_update_other (r : Registry) {name other : String} (f : Entry → Entry) (h : other ≠ name) :
    (r.update name f).get other = r.get other := get_set_other r _ h

theorem open_update {r : Registry} (h : r.Open) (name : String) {f : Entry → Entry}
    (hf : ∀ e : Entry, 1 ≤ e.recommended → 1 ≤ (f e).recommended) : (r.update name f).Open := by
  refine ⟨h.default, fun other => ?_⟩
  by_cases ho : other = name
  · rw [ho, get_update_same]
    exact hf _ (h.recommended name)
  · rw [get_update_other r f ho]
    exact h.recommended other

theorem keepsSlots_update (r : Registry) (name : String) {f : Entry → Entry}
    (hi : ∀ e : Entry, (f e).inFlight = e.inFlight)
    (hf : r.Open → ∀ e : Entry, 1 ≤ e.recommended → 1 ≤ (f e).recommended) :
    r.KeepsSlots (r.update name f) := by
  refine ⟨rfl, fun other => ?_, fun h => open_update h name (hf h)⟩
  by_cases ho : other = name
  · rw [ho, get_update_same, hi]
  · rw [get_update_other r f ho]

theorem keepsSlots_recordFailure (r : Registry) (now : Nat) (name : String) :
    r.KeepsSlots (r.recordFailure now name) :=
  keepsSlots_update r name (fun _ => rfl) fun _ _ he => he

theorem keepsSlots_meet (r : Registry) (name : String) : r.KeepsSlots (r.meet name) :=
  keepsSlots_update r name (fun _ => rfl) fun _ _ he => he

theorem keepsSlots_refresh (r : Registry) (now : Nat) (name : String) : r.KeepsSlots (r.refresh now name) :=
  keepsSlots_update r name (fun _ => rfl) fun h _ he => Entry.recommended_decay_pos h.default he _

theorem keepsSlots_recordSuccess (r : Registry) (name : String) : r.KeepsSlots (r.recordSuccess name) := by
  apply keepsSlots_update
  · intro e
    unfold Entry.recordSuccess
    split <;> rfl
  · intro _ e he
    unfold Entry.recordSuccess
    split <;> exact he

theorem keepsSlots_recordRateLimit (r : Registry) (now : Nat) (name : String) :
    r.KeepsSlots (r.recordRateLimit now name) := by
  apply keepsSlots_update
  · intro e
    simp only [Entry.recordRateLimit]
    split <;> rfl
  · intro h e he
    have hd := Entry.recommended_decay_pos h.default he now
    simp only [Entry.recordRateLimit]
    split
    · exact Nat.le_max_right _ 1
    · exact hd

/-- What taking a slot does to the slots in use. -/
theorem acquire?_eq_some {r r' : Registry} {now : Nat} {name : String} (h : r.acquire? now name = some r') :
    r'.config = r.config ∧ (r.Open → r'.Open) ∧
      (r'.get name).inFlight = (r.get name).inFlight + 1 ∧
        ∀ other, other ≠ name → (r'.get other).inFlight = (r.get other).inFlight := by
  simp only [acquire?, Option.ite_none_right_eq_some] at h
  obtain ⟨-, h⟩ := h
  cases h
  refine ⟨rfl, fun h => ⟨h.default, fun other => ?_⟩, ?_, fun other ho => ?_⟩
  · by_cases ho : other = name
    · rw [ho, get_set_same]
      exact Entry.recommended_decay_pos h.default (h.recommended name) _
    · rw [get_set_other r _ ho]
      exact h.recommended other
  · rw [get_set_same]
    rfl
  · rw [get_set_other r _ ho]

theorem acquire?_isSome_of_pollWait? {r : Registry} {now since wait : Nat} {name : String}
    (h : (r.get name).pollWait? r.config since = some wait) (hw : since + wait ≤ now) :
    (r.acquire? now name).isSome := by
  rw [acquire?, if_pos (Entry.admits_of_pollWait? h hw)]
  rfl

/-- A caller who finds a slot does not wait. -/
theorem pollWait?_of_acquire? {r r' : Registry} {now : Nat} {name : String} (h : r.acquire? now name = some r') :
    (r.get name).pollWait? r.config now = some 0 := by
  simp only [acquire?, Option.ite_none_right_eq_some] at h
  exact if_pos h.1

/-- A caller who finds none is told the same by all who look at that moment. -/
theorem pollWait?_refresh (r : Registry) (now : Nat) (name : String) :
    ((r.refresh now name).get name).pollWait? r.config now = (r.get name).pollWait? r.config now := by
  rw [refresh, get_update_same, Entry.pollWait?_decay]

theorem release_inFlight (r : Registry) (name other : String) :
    ((r.release name).get other).inFlight =
      (r.get other).inFlight - (if other = name then 1 else 0) := by
  by_cases ho : other = name
  · rw [ho, release, get_update_same, if_pos rfl]
  · rw [release, get_update_other r _ ho, if_neg ho, Nat.sub_zero]

theorem set_set (r : Registry) (name : String) (a b : Entry) : (r.set name a).set name b = r.set name b := by
  have hname : ∀ p : String × Entry, ((if p.1 == name then (name, a) else p).1 == name) = (p.1 == name) := by
    intro p
    split
    · rename_i hp
      rw [hp, beq_self_eq_true]
    · rfl
  unfold set
  congr 1
  by_cases h : r.entries.any (·.1 == name) = true
  · have h' : (r.entries.map fun p => if p.1 == name then (name, a) else p).any (·.1 == name) = true := by
      rw [List.any_map]
      exact (congrArg r.entries.any (funext hname)).trans h
    simp only [if_pos h, if_pos h', List.map_map]
    refine List.map_congr_left fun p _ => ?_
    simp only [Function.comp_apply, hname]
    split <;> rfl
  · have h' : (r.entries ++ [(name, a)]).any (·.1 == name) = true := by simp
    have hother : ∀ p ∈ r.entries, (if p.1 == name then (name, b) else p) = p := fun p hp =>
      if_neg fun hn => h (List.any_eq_true.2 ⟨p, hp, hn⟩)
    simp only [if_neg h, if_pos h', List.map_append, List.map_congr_left hother, List.map_id', List.map_singleton,
      beq_self_eq_true, if_true]

theorem refresh_refresh (r : Registry) (name : String) {now later : Nat} (h : now ≤ later) :
    (r.refresh now name).refresh later name = r.refresh later name := by
  have hdecay : Entry.decay r.config later ((r.refresh now name).get name) = (r.get name).decay r.config later := by
    rw [refresh, get_update_same, Entry.decay_decay h]
  exact (set_set r name _ _).trans (congrArg (r.set name) hdecay)

/-- A slot that is taken and given back leaves the limits up to date. -/
theorem release_of_acquire? {r r' : Registry} {name : String} {now : Nat} (h : r.acquire? now name = some r') : r'.release name = r.refresh now name := by
  simp only [acquire?, Option.ite_none_right_eq_some] at h
  obtain ⟨-, h⟩ := h
  cases h
  rw [release, update, set_set, get_set_same]
  rfl

theorem open_release {r : Registry} (h : r.Open) (name : String) : (r.release name).Open :=
  open_update h name fun _ he => he

theorem idle_empty {config : Config} (h : 1 ≤ config.defaultConcurrency) : ({ config } : Registry).Idle :=
  ⟨⟨h, fun _ => h⟩, fun _ => rfl⟩

/-- A provider without failures that count. -/
structure Untroubled (r : Registry) (name : String) : Prop where
  failures : (r.get name).failures = 0
  lastFailure : (r.get name).lastFailure = none

theorem Untroubled.isAvailable {r : Registry} {name : String} (h : r.Untroubled name) (now : Nat) :
    r.isAvailable now name = true := by
  simp only [Registry.isAvailable, Entry.circuit, h.failures, h.lastFailure]
  split <;> rfl

theorem Untroubled.set {r : Registry} {name other : String} (h : r.Untroubled name) {e : Entry}
    (he : (r.get other).failures = 0 → (r.get other).lastFailure = none → e.failures = 0 ∧ e.lastFailure = none) :
    (r.set other e).Untroubled name := by
  by_cases ho : name = other
  · subst ho
    obtain ⟨hf, hl⟩ := he h.failures h.lastFailure
    exact ⟨by rw [get_set_same, hf], by rw [get_set_same, hl]⟩
  · exact ⟨by rw [get_set_other r e ho, h.failures], by rw [get_set_other r e ho, h.lastFailure]⟩

/-- A provider whose calls are let through at all times. -/
def Available (r : Registry) (name : String) : Prop := ∀ now, r.isAvailable now name = true

/-- A provider stays available if no change opens its circuit. -/
theorem Available.set {r : Registry} {name other : String} (h : r.Available name) {e : Entry}
    (he : ∀ now, (r.get other).circuit r.config now ≠ .opened → e.circuit r.config now ≠ .opened) :
    (r.set other e).Available name := by
  intro now
  have hnow := h now
  simp only [isAvailable, bne_iff_ne] at hnow ⊢
  by_cases ho : name = other
  · subst ho
    rw [get_set_same, config_set]
    exact he now hnow
  · rw [get_set_other r e ho, config_set]
    exact hnow

/-- What keeps a provider available, and is kept by all that calls do which never fail. -/
structure Unharmed (name : String) (P : Registry → Prop) : Prop where
  available {r : Registry} : P r → r.Available name
  refresh {r : Registry} (now : Nat) (other : String) : P r → P (r.refresh now other)
  acquire {r r' : Registry} {now : Nat} {other : String} : r.acquire? now other = some r' → P r → P r'
  release {r : Registry} (other : String) : P r → P (r.release other)
  recordSuccess {r : Registry} (other : String) : P r → P (r.recordSuccess other)

theorem unharmed_untroubled (name : String) : Unharmed name fun r => r.Untroubled name where
  available h := h.isAvailable
  refresh _ _ h := h.set fun hf hl => ⟨hf, hl⟩
  acquire ha h := by
    simp only [acquire?, Option.ite_none_right_eq_some] at ha
    obtain ⟨-, ha⟩ := ha
    cases ha
    exact h.set fun hf hl => ⟨hf, hl⟩
  release _ h := h.set fun hf hl => ⟨hf, hl⟩
  recordSuccess _ h := by
    refine h.set fun hf hl => ?_
    rw [Entry.recordSuccess, if_neg (by omega)]
    exact ⟨hf, hl⟩

theorem unharmed_available (name : String) : Unharmed name fun r => r.Available name where
  available h := h
  refresh _ _ h := h.set fun _ ho => ho
  acquire ha h := by
    simp only [acquire?, Option.ite_none_right_eq_some] at ha
    obtain ⟨-, ha⟩ := ha
    cases ha
    exact h.set fun _ ho => ho
  release _ h := h.set fun _ ho => ho
  recordSuccess _ h := by
    refine h.set fun now ho => ?_
    unfold Entry.recordSuccess
    split
    · unfold Entry.circuit
      split <;> exact nofun
    · exact ho

end Registry

end CodeIndex.Health
