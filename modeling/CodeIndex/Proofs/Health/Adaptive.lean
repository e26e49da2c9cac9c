import CodeIndex.Proofs.Health.Independence

/-!
How the number of calls follows rate limits. Hits count for a window each, until one of them is the last that the
threshold asks for: it is full, halves what was recommended, and uses up those before it. What was halved lasts until a
whole window has passed since the last hit, or until a reset. An entry drops old hits only when it is looked at, but
those that it has not dropped yet count no more than those that it has.
-/

namespace CodeIndex.Health

namespace Entry

variable {c : Config} {now t : Nat} {e : Entry}

/-- A reduction ends when a window has passed without a rate limit, and not before. -/
theorem recommended_later (h : now ≤ t) :
    (e.decay c t).recommended =
      if (e.decay c now).recommended < c.defaultConcurrency ∧ e.quiet c t = true then c.defaultConcurrency
      else (e.decay c now).recommended := by
  rw [← decay_decay (e := e) h, recommended_decay]
  rfl

@[simp] theorem lastRateLimit_recordRateLimit (c : Config) (now : Nat) (e : Entry) :
    (e.recordRateLimit c now).lastRateLimit = some now := by
  simp only [recordRateLimit]
  split <;> rfl

/-- A rate limit of the moment is no reason to end a reduction. -/
theorem recommended_recordRateLimit (hw : 0 < c.rateLimitWindowMs) :
    ((e.recordRateLimit c now).decay c now).recommended =
      if c.rateLimitThreshold ≤ (e.decay c now).rateLimits.length + 1 then max ((e.decay c now).recommended / 2) 1
      else (e.decay c now).recommended := by
  have hloud : (e.recordRateLimit c now).quiet c now = false := by
    rw [quiet, lastRateLimit_recordRateLimit, Option.all_some, Nat.sub_self, decide_eq_false_iff_not]
    exact Nat.not_le.2 hw
  rw [recommended_decay, hloud, if_neg (fun h => Bool.false_ne_true h.2)]
  simp only [recordRateLimit, List.length_append, List.length_singleton]
  split <;> rfl

/-- A rate limit is added to those that count, or uses them up. -/
theorem rateLimits_recordRateLimit (h : now ≤ t) :
    ((e.recordRateLimit c now).limits c t).1 =
      if c.rateLimitThreshold ≤ (e.decay c now).rateLimits.length + 1 then []
      else (e.limits c t).1 ++ [now].filter fun u => t - u < c.rateLimitWindowMs := by
  rw [← limits_decay (e := e) h]
  simp only [recordRateLimit, List.length_append, List.length_singleton]
  split
  · rfl
  · exact List.filter_append _ _

/-- After a quiet window nothing is reduced. -/
theorem recommended_of_quiet (h : (e.decay c now).recommended ≤ c.defaultConcurrency) (hq : e.quiet c now = true) :
    (e.decay c now).recommended = c.defaultConcurrency := by
  rw [recommended_decay] at h ⊢
  split
  · rfl
  · rename_i hn
    rw [if_neg hn] at h
    by_contra hne
    exact hn ⟨Nat.lt_of_le_of_ne h hne, hq⟩

end Entry

namespace Monitor

variable {m : Monitor} {p : String} {past : List Nat} {t u : Nat}

/-- How many of the times in a list lie within the window. -/
def recent (c : Config) (now : Nat) (past : List Nat) : Nat := past.countP fun t => now - t < c.rateLimitWindowMs

/-- Whether a rate limit is the last one that the threshold asks for, of those within the window. -/
def Full (c : Config) (now : Nat) (past : List Nat) : Prop := recent c now (now :: past) = c.rateLimitThreshold

instance (c : Config) (now : Nat) (past : List Nat) : Decidable (Full c now past) := inferInstanceAs (Decidable (_ = _))

theorem recent_now {c : Config} (hw : 0 < c.rateLimitWindowMs) (now : Nat) (past : List Nat) :
    recent c now (now :: past) = recent c now past + 1 :=
  List.countP_cons_of_pos (by rw [Nat.sub_self]; exact decide_eq_true hw)

theorem recent_mono {c : Config} {now : Nat} (h : now ≤ t) (past : List Nat) : recent c t past ≤ recent c now past := by
  refine List.countP_mono_left fun u _ hu => ?_
  simp only [decide_eq_true_eq] at hu ⊢
  omega

/-- The times of a provider's rate limits since the last full one or the last reset, latest first, after one more
event. -/
def hit (p : String) (m : Monitor) (past : List Nat) : Event → List Nat
  | .rateLimit q =>
    if q = p then if Full m.registry.config m.now past then [] else m.now :: past else past
  | .reset => []
  | _ => past

/-- The times of a provider's rate limits since the last full one or the last reset, latest first, after a history. -/
def hits (p : String) (m : Monitor) (past : List Nat) : List Event → List Nat
  | [] => past
  | e :: events => hits p (m.step e) (hit p m past e) events

theorem hit_of_not_throttles {e : Event} (he : ¬ e.throttles p) (past : List Nat) : hit p m past e = past := by
  cases e with
  | rateLimit q => exact if_neg he
  | reset => exact absurd trivial he
  | _ => rfl

/-- What an entry's rate limits say of the history. -/
structure Metered (p : String) (m : Monitor) (past : List Nat) : Prop where
  window : 0 < m.registry.config.rateLimitWindowMs
  counted : ∀ t, m.now ≤ t → ((m.registry.get p).limits m.registry.config t).1 =
    (past.filter fun u => t - u < m.registry.config.rateLimitWindowMs).reverse
  short : recent m.registry.config m.now past < m.registry.config.rateLimitThreshold

/-- The hits of a window are never more than the threshold asks for, so one that makes them enough makes them as
many. -/
theorem Metered.full_iff (h : m.Metered p past) :
    m.registry.config.rateLimitThreshold ≤ ((m.registry.get p).decay m.registry.config m.now).rateLimits.length + 1 ↔
      Full m.registry.config m.now past := by
  have hcounted : ((m.registry.get p).decay m.registry.config m.now).rateLimits = _ := h.counted m.now (Nat.le_refl _)
  have hlength : ((m.registry.get p).decay m.registry.config m.now).rateLimits.length =
      recent m.registry.config m.now past := by
    rw [hcounted, List.length_reverse, ← List.countP_eq_length_filter, recent]
  have hshort := h.short
  rw [hlength, Full, recent_now h.window]
  omega

theorem Metered.rateLimit (h : m.Metered p past) :
    (m.step (.rateLimit p)).Metered p (hit p m past (.rateLimit p)) := by
  refine ⟨h.window, fun t ht => ?_, ?_⟩
  · replace ht : m.now ≤ t := ht
    have hcounted : (((m.step (.rateLimit p)).registry.get p).limits m.registry.config t).1 =
        ((hit p m past (.rateLimit p)).filter fun u => t - u < m.registry.config.rateLimitWindowMs).reverse := by
      rw [get_rateLimit, Entry.rateLimits_recordRateLimit ht, h.counted t ht, hit, if_pos rfl]
      simp only [h.full_iff]
      split
      · rfl
      · rw [show m.now :: past = [m.now] ++ past from rfl, List.filter_append, List.reverse_append,
          List.filter_singleton]
        cases decide (t - m.now < m.registry.config.rateLimitWindowMs) <;> rfl
    exact hcounted
  · have hshort := h.short
    rw [hit, if_pos rfl]
    by_cases hf : Full m.registry.config m.now past
    · rw [if_pos hf]
      exact Nat.zero_lt_of_lt hshort
    · have hnot := hf
      rw [Full, recent_now h.window] at hnot
      have hone : recent m.registry.config m.now (m.now :: past) < m.registry.config.rateLimitThreshold := by
        rw [recent_now h.window]
        omega
      rw [if_neg hf]
      exact hone

theorem Metered.step (h : m.Metered p past) (e : Event) : (m.step e).Metered p (hit p m past e) := by
  rcases limits_cases m p e with ⟨rfl, -⟩ | ⟨rfl, -⟩ | ⟨he, hsame⟩
  · exact h.rateLimit
  · exact ⟨h.window, fun _ _ => rfl, Nat.zero_lt_of_lt h.short⟩
  · have hconfig := config_step m e
    have hnow := now_le_step m e
    rw [hit_of_not_throttles he]
    refine ⟨hconfig ▸ h.window, fun t ht => ?_, ?_⟩
    · rw [hconfig, hsame t ht]
      exact h.counted t (Nat.le_trans hnow ht)
    · rw [hconfig]
      exact Nat.lt_of_le_of_lt (recent_mono hnow past) h.short

theorem Metered.run (h : m.Metered p past) (events : List Event) : (m.run events).Metered p (hits p m past events) := by
  induction events generalizing m past with
  | nil => exact h
  | cons e events ih => exact ih (h.step e)

theorem metered_empty {config : Config} (hw : 0 < config.rateLimitWindowMs) (ht : 1 ≤ config.rateLimitThreshold)
    (now : Nat) (p : String) : Metered p { now, registry := { config } } [] :=
  ⟨hw, fun _ _ => rfl, ht⟩

theorem now_le_of_mem_times {which : Event → Prop} [DecidablePred which] {events : List Event}
    (hu : u ∈ m.times which events) : m.now ≤ u := by
  obtain ⟨x, hx, rfl⟩ := List.mem_map.1 hu
  exact now_le_of_mem_timed hx

theorem lastRateLimit_step {e : Event} (h : ((m.step e).registry.get p).lastRateLimit = some u) :
    (m.registry.get p).lastRateLimit = some u ∧ e ≠ .rateLimit p ∨ e = .rateLimit p ∧ u = m.now := by
  rcases limits_cases m p e with ⟨rfl, hget⟩ | ⟨rfl, -⟩ | ⟨he, hsame⟩
  · rw [hget, Entry.lastRateLimit_recordRateLimit] at h
    exact .inr ⟨rfl, (Option.some.inj h).symm⟩
  · cases h
  · have hlast := (Prod.ext_iff.1 (Prod.ext_iff.1 (hsame _ (Nat.le_refl _))).2).1
    refine .inl ⟨hlast.symm.trans h, ?_⟩
    rintro rfl
    exact he rfl

/-- The last rate limit that an entry knows of is the latest of the history. -/
theorem lastRateLimit_run {events : List Event} (h : ((m.run events).registry.get p).lastRateLimit = some u) :
    ((m.registry.get p).lastRateLimit = some u ∨ u ∈ m.times (· = .rateLimit p) events) ∧
      ∀ v ∈ m.times (· = .rateLimit p) events, v ≤ u := by
  induction events generalizing m with
  | nil => exact ⟨.inl h, fun v hv => nomatch hv⟩
  | cons e events ih =>
    obtain ⟨hfrom, hlatest⟩ := ih h
    rw [times_cons]
    by_cases he : e = .rateLimit p
    · rw [if_pos he]
      have hnow : m.now ≤ u ∧ u ∈ m.now :: (m.step e).times (· = .rateLimit p) events := by
        rcases hfrom with hlast | hmem
        · rcases lastRateLimit_step hlast with ⟨-, hne⟩ | ⟨-, rfl⟩
          · exact absurd he hne
          · exact ⟨Nat.le_refl _, List.mem_cons_self⟩
        · exact ⟨Nat.le_trans (now_le_step m e) (now_le_of_mem_times hmem), List.mem_cons_of_mem _ hmem⟩
      refine ⟨.inr hnow.2, fun v hv => ?_⟩
      rcases List.mem_cons.1 hv with rfl | hv
      · exact hnow.1
      · exact hlatest v hv
    · rw [if_neg he]
      refine ⟨hfrom.imp_left fun hlast => ?_, hlatest⟩
      exact (lastRateLimit_step hlast).elim (·.1) fun hhit => absurd hhit.1 he

/-- What is recommended is one call at least, and no more than the default. -/
def Ranged (p : String) (m : Monitor) : Prop :=
  ∀ t, m.now ≤ t → 1 ≤ m.registry.recommended t p ∧ m.registry.recommended t p ≤ m.registry.config.defaultConcurrency

theorem recommended_other {e : Event} (he : ¬ e.throttles p) (ht : (m.step e).now ≤ t) :
    (m.step e).registry.recommended t p = m.registry.recommended t p := by
  have hsame := limits_step he ht
  unfold Registry.recommended
  rw [config_step]
  exact (Prod.ext_iff.1 (Prod.ext_iff.1 hsame).2).2

theorem Metered.recommended_rateLimit (h : m.Metered p past) :
    (m.step (.rateLimit p)).registry.recommended m.now p =
      if Full m.registry.config m.now past then max 1 (m.registry.recommended m.now p / 2)
      else m.registry.recommended m.now p := by
  have hafter : (m.step (.rateLimit p)).registry.recommended m.now p =
      (((m.registry.get p).recordRateLimit m.registry.config m.now).decay m.registry.config m.now).recommended := by
    rw [← get_rateLimit]
    rfl
  rw [hafter, Entry.recommended_recordRateLimit h.window, Nat.max_comm]
  simp only [h.full_iff]
  rfl

/-- A registry that knows of no provider recommends the default. -/
theorem recommended_empty (config : Config) (now : Nat) (p : String) :
    ({ config } : Registry).recommended now p = config.defaultConcurrency := by
  have hfresh : ({ config } : Registry).recommended now p = ((Entry.fresh config).decay config now).recommended := rfl
  rw [hfresh, Entry.recommended_decay]
  split <;> rfl

/-- A range at one time is a range ever after. -/
theorem ranged_of_now (hd : 1 ≤ m.registry.config.defaultConcurrency) (h : 1 ≤ m.registry.recommended m.now p ∧
    m.registry.recommended m.now p ≤ m.registry.config.defaultConcurrency) : m.Ranged p := by
  intro t ht
  unfold Registry.recommended at h ⊢
  rw [Entry.recommended_later ht]
  split
  · exact ⟨hd, Nat.le_refl _⟩
  · exact h

theorem ranged_empty {config : Config} (hd : 1 ≤ config.defaultConcurrency) (now : Nat) (p : String) :
    Ranged p { now, registry := { config } } := by
  have hdefault := recommended_empty config now p
  exact ranged_of_now hd ⟨hdefault ▸ hd, Nat.le_of_eq hdefault⟩

theorem Ranged.step (h : m.Ranged p) (hm : m.Metered p past) (hd : 1 ≤ m.registry.config.defaultConcurrency)
    (e : Event) : (m.step e).Ranged p := by
  rcases limits_cases m p e with ⟨rfl, -⟩ | ⟨rfl, -⟩ | ⟨he, -⟩
  · have hnow := h m.now (Nat.le_refl _)
    refine ranged_of_now hd ?_
    change 1 ≤ (m.step (.rateLimit p)).registry.recommended m.now p ∧
      (m.step (.rateLimit p)).registry.recommended m.now p ≤ m.registry.config.defaultConcurrency
    rw [hm.recommended_rateLimit]
    split
    · omega
    · exact hnow
  · exact ranged_empty hd m.now p
  · intro t ht
    rw [recommended_other he ht, config_step]
    exact h t (Nat.le_trans (now_le_step m e) ht)

theorem Ranged.run (h : m.Ranged p) (hm : m.Metered p past) (hd : 1 ≤ m.registry.config.defaultConcurrency)
    (events : List Event) : (m.run events).Ranged p := by
  induction events generalizing m past with
  | nil => exact h
  | cons e events ih => exact ih (h.step hm hd e) (hm.step e) ((config_step m e).symm ▸ hd)

/-- Of the rate limits in a history, an entry that knows of one knows of the latest. -/
def Latest (p : String) (m : Monitor) (all : List Nat) : Prop :=
  ∀ u, (m.registry.get p).lastRateLimit = some u → u ∈ all ∧ ∀ v ∈ all, v ≤ u

theorem latest_run (h : (m.registry.get p).lastRateLimit = none) (events : List Event) :
    (m.run events).Latest p (m.times (· = .rateLimit p) events) := by
  intro u hu
  obtain ⟨hfrom, hlatest⟩ := lastRateLimit_run hu
  rw [h] at hfrom
  exact ⟨hfrom.resolve_left nofun, hlatest⟩

theorem Latest.recommended_default {all : List Nat} (h : m.Latest p all) (hr : m.Ranged p) (ht : m.now ≤ t)
    (hold : ∀ u ∈ all, m.registry.config.rateLimitWindowMs ≤ t - u) :
    m.registry.recommended t p = m.registry.config.defaultConcurrency := by
  refine Entry.recommended_of_quiet (hr t ht).2 ?_
  unfold Entry.quiet
  cases hl : (m.registry.get p).lastRateLimit with
  | none => rfl
  | some u => exact decide_eq_true (hold u (h u hl).1)

/-- Time alone changes a recommendation only if a window has passed since the latest rate limit. -/
theorem Latest.recommended_kept {all : List Nat} (h : m.Latest p all) (hr : m.Ranged p) (ht : m.now ≤ t) :
    m.registry.recommended t p = m.registry.recommended m.now p ∨
      (∀ u ∈ all, m.registry.config.rateLimitWindowMs ≤ t - u) ∧
        m.registry.recommended t p = m.registry.config.defaultConcurrency := by
  cases hl : (m.registry.get p).lastRateLimit with
  | none =>
    -- an entry that knows of no rate limit recommends the default at all times
    have hquiet : ∀ t, (m.registry.get p).quiet m.registry.config t = true := fun t => by
      rw [Entry.quiet, hl]
      rfl
    have hdefault : ∀ t, m.now ≤ t → m.registry.recommended t p = m.registry.config.defaultConcurrency := fun t ht =>
      Entry.recommended_of_quiet (hr t ht).2 (hquiet t)
    exact .inl ((hdefault t ht).trans (hdefault m.now (Nat.le_refl _)).symm)
  | some u =>
    unfold Registry.recommended
    rw [Entry.recommended_later ht, Entry.quiet, hl, Option.all_some]
    split
    · rename_i hquiet
      refine .inr ⟨fun v hv => ?_, rfl⟩
      have hpassed := of_decide_eq_true hquiet.2
      have hle := (h u hl).2 v hv
      omega
    · exact .inl rfl

end Monitor

/-- The recommendation is always between one and the default, and is the default if no rate limit came within the last
window. A full rate limit halves what was recommended just before, but leaves one call; a reset brings the default back;
and no other event changes it, but for its return to the default when a whole window has passed since the latest rate
limit. -/
theorem recommendation_law (config : Config) (hd : 1 ≤ config.defaultConcurrency) (ht : 1 ≤ config.rateLimitThreshold)
    (hw : 0 < config.rateLimitWindowMs) (now : Nat) (events : List Event) (p : String) :
    let start : Monitor := { now, registry := { config } }
    let m := start.run events
    let all := start.times (· = .rateLimit p) events
    let past := Monitor.hits p start [] events
    (∀ t, m.now ≤ t → 1 ≤ m.registry.recommended t p ∧ m.registry.recommended t p ≤ config.defaultConcurrency) ∧
      (∀ t, m.now ≤ t → (∀ u ∈ all, config.rateLimitWindowMs ≤ t - u) →
        m.registry.recommended t p = config.defaultConcurrency) ∧
      ∀ e, let before := m.registry.recommended m.now p
        let after := (m.step e).registry.recommended (m.step e).now p
        (e = .rateLimit p → Monitor.Full config m.now past → after = max 1 (before / 2)) ∧
          (e = .reset → after = config.defaultConcurrency) ∧
          (e ≠ .reset → ¬ (e = .rateLimit p ∧ Monitor.Full config m.now past) →
            after = before ∨ (∀ u ∈ all, config.rateLimitWindowMs ≤ (m.step e).now - u) ∧
              after = config.defaultConcurrency) := by
  intro start m all past
  have hconfig : m.registry.config = config := Monitor.config_run start events
  have hmetered : m.Metered p past := (Monitor.metered_empty hw ht now p).run events
  have hranged : m.Ranged p := (Monitor.ranged_empty hd now p).run (Monitor.metered_empty hw ht now p) hd events
  have hlatest : m.Latest p all := Monitor.latest_run rfl events
  rw [← hconfig]
  refine ⟨hranged, fun t ht hold => hlatest.recommended_default hranged ht hold, fun e => ?_⟩
  have hhit := hmetered.recommended_rateLimit
  refine ⟨?_, ?_, fun hreset hfull => ?_⟩
  · rintro rfl hf
    rw [if_pos hf] at hhit
    exact hhit
  · rintro rfl
    exact Monitor.recommended_empty m.registry.config m.now p
  · rcases Monitor.limits_cases m p e with ⟨rfl, -⟩ | ⟨hr, -⟩ | ⟨he, -⟩
    · rw [if_neg fun hf => hfull ⟨rfl, hf⟩] at hhit
      exact .inl hhit
    · exact absurd hr hreset
    · have hsame := Monitor.recommended_other he (Nat.le_refl (m.step e).now)
      have hkept := hlatest.recommended_kept hranged (Monitor.now_le_step m e)
      rw [← hsame] at hkept
      exact hkept

/-- Three rate limits of which the second is full and uses up the first; with the third, one more would be full. -/
def throttled : List Event :=
  [.rateLimit "p", .advance 600, .rateLimit "p", .advance 100, .rateLimit "p", .advance 200]

theorem recommendation_law_throttled :
    let config : Config := ⟨3, 3600000, 2, 1000, 8⟩
    let start : Monitor := { registry := { config } }
    let m := start.run throttled
    1 ≤ config.defaultConcurrency ∧ 1 ≤ config.rateLimitThreshold ∧ 0 < config.rateLimitWindowMs ∧
      start.times (· = .rateLimit "p") throttled = [0, 600, 700] ∧ Monitor.hits "p" start [] throttled = [700] ∧
      m.registry.recommended m.now "p" = 4 ∧ (m.step (.rateLimit "p")).registry.recommended 900 "p" = 2 ∧
      m.registry.recommended 1700 "p" = 8 := by
  intro config start m
  obtain ⟨-, hquiet, hevents⟩ := recommendation_law config (by decide) (by decide) (by decide) 0 throttled "p"
  have hbefore : m.registry.recommended m.now "p" = 4 := by decide +kernel
  have hafter := (hevents (.rateLimit "p")).1 rfl (by decide +kernel)
  refine ⟨by decide, by decide, by decide, by decide +kernel, by decide +kernel, hbefore, ?_, ?_⟩
  · exact hafter.trans (by rw [hbefore]; rfl)
  · exact hquiet 1700 (by decide +kernel) (by decide +kernel)

/-- Three rate limits at once. -/
def jammed : List Event := [.rateLimit "p", .rateLimit "p", .rateLimit "p"]

/-- A reset brings the default back although no window has passed. -/
theorem reset_restores_default :
    let start : Monitor := { registry := { config := ⟨3, 3600000, 3, 60000, 8⟩ } }
    let m := start.run jammed
    let all := start.times (· = .rateLimit "p") jammed
    let after := (m.step .reset).registry.recommended m.now "p"
    m.registry.recommended m.now "p" = 4 ∧ after = 8 ∧
      ¬ (after = m.registry.recommended m.now "p" ∨ (∀ u ∈ all, 60000 ≤ m.now - u) ∧ after = 8) := by
  decide +kernel

end CodeIndex.Health
