import CodeIndex.Proofs.Embedding.Answer
import CodeIndex.Proofs.Embedding.Balance

/-!
A batch with no other beside it, such as that of a query. It never waits for a permit or a slot, so in the end it is
answered or has failed, and it has given back all that it took.
-/

namespace CodeIndex.Embedding

open Health Relation

variable {c : PipelineConfig} {t : Task} {f f' : Floor} {b b' : Batch} {w w' : World}

/-- A batch that has all that the floor has lent, and waits for none of it. -/
structure Batch.Alone (c : PipelineConfig) (t : Task) (f : Floor) (b : Batch) : Prop where
  sound : b.stage.Sound f.providers.length c.retry.attempts
  balanced : f.Balanced (max 1 c.batchConcurrency) [(t, b.stage.hold)]
  permit : b.stage.hold ≠ .awaitsPermit
  slot : b.stage.hold ≠ .awaitsSlot

namespace Batch.Alone

theorem idle (h : b.Alone c t f) (hb : b.stage.hold = .nothing) : f.health.Idle := by
  refine ⟨h.balanced.opened, fun name => ?_⟩
  rw [h.balanced.slots, hb]
  rfl

theorem free (h : b.Alone c t f) (hb : b.stage.hold = .nothing) : 0 < f.freePermits := by
  have hp := h.balanced.permits
  have hg : f.granted = [] := by
    have hwaits := h.balanced.waits
    rw [hb] at hwaits
    exact (List.append_eq_nil_iff.1 hwaits.eq_nil).2
  rw [hb, hg] at hp
  simp only [List.length_nil, List.countP_singleton, Hold.hasPermit, Bool.false_eq_true, if_false] at hp
  omega

/-- Time that passes takes nothing from it. -/
theorem later (h : b.Alone c t f) (now : Nat) : b.Alone c t { f with now } :=
  ⟨h.sound, h.balanced.frame rfl rfl rfl rfl rfl (.refl _), h.permit, h.slot⟩

/-- Every step leads nearer to the end. -/
theorem move (h : b.Alone c t f) (m : b.Move c t f f' b') :
    b'.Alone c t f' ∧
      b'.distance f.providers.length c.retry.attempts < b.distance f.providers.length c.retry.attempts := by
  refine ⟨?_, (m.distance_lt_or h.sound).resolve_right fun hr => ?_⟩
  · suffices hhold : b'.stage.hold ≠ .awaitsPermit ∧ b'.stage.hold ≠ .awaitsSlot from
      ⟨m.sound h.sound, h.balanced.move m, hhold.1, hhold.2⟩
    cases m with
    | lost | retry | resume | reopen => exact ⟨nofun, nofun⟩
    | take => exact ⟨nofun, nofun⟩
    | pass i =>
      rcases next_stage f b i with hn | ⟨-, hn⟩ <;> rw [hn] <;> exact ⟨nofun, nofun⟩
    | queue i p hb _ hf => exact absurd (h.free (by rw [hb]; rfl)) (by omega)
    | wait i p f₁ he hp ha =>
      cases he with
      | free hb =>
        -- a slot is there, since no call is under way
        have hidle := h.idle (by rw [hb]; rfl)
        have hnow : f.now + 0 ≤ f.now := Nat.le_refl _
        have hsome := Registry.acquire?_isSome_of_pollWait?
          (Entry.pollWait?_of_idle hidle.default (hidle.recommended p.name) (hidle.inFlight p.name) f.now) hnow
        rw [ha] at hsome
        cases hsome
      | handed hb => exact absurd (by rw [hb]; rfl) h.permit
      | again since hb => exact absurd (by rw [hb]; rfl) h.slot
    | finish i left p g d hb hp he =>
      cases he with
      | single | answer | refusal => exact ⟨nofun, nofun⟩
      | failure health stage _ _ hstage =>
        rcases hstage with rfl | ⟨-, rfl | ⟨_, _, rfl⟩⟩ <;> exact ⟨nofun, nofun⟩
  · obtain ⟨⟨i, since, hb, -⟩, -⟩ := hr
    exact h.slot (by rw [hb]; rfl)

/-- It goes on until it is done, if need be after some time. -/
theorem step (h : b.Alone c t f) :
    (∃ now f' b', b.stepAlone c t f = some (f', b') ∧ b.Move c t { f with now } f' b') ∨
      b.stepAlone c t f = none ∧ ∃ r, b.stage = .done r := by
  cases hstep : b.step c t f with
  | some r => exact .inl ⟨f.now, r.1, r.2, by rw [stepAlone, hstep], step_move h.sound hstep⟩
  | none =>
    have hrest := resting_of_step h.sound hstep
    have hwake : ∀ wake, b.wakeAt? f = some wake → ∀ b', b.step c t { f with now := max f.now wake } = some b' →
        ∃ now f' b', b.stepAlone c t f = some (f', b') ∧ b.Move c t { f with now } f' b' := by
      intro wake hw r hr
      refine ⟨max f.now wake, r.1, r.2, ?_, step_move (h.later _).sound hr⟩
      rw [stepAlone, hstep, hw]
      exact hr
    cases hb : b.stage with
    | done r => exact .inr ⟨by rw [stepAlone, hstep]; simp [wakeAt?, hb], r, rfl⟩
    | choose | call => simp only [Resting, hb] at hrest
    | permit => exact absurd (by rw [hb]; rfl) h.permit
    | slot => exact absurd (by rw [hb]; rfl) h.slot
    | backoff i left since wake =>
      exact .inl (hwake wake (by simp [wakeAt?, hb]) (_, _) (by simp only [Batch.step, hb]; exact if_pos (Nat.le_max_right ..)))
    | cooldown i since wake =>
      exact .inl (hwake wake (by simp [wakeAt?, hb]) (_, _) (by simp only [Batch.step, hb]; exact if_pos (Nat.le_max_right ..)))

/-- It ends, and by then nothing has changed but providers, their health, and the room for longer vectors. -/
theorem run (h : b.Alone c ⟨0, 0⟩ f) :
    (∃ r, (b.runAlone c f).2.stage = .done r) ∧ (b.runAlone c f).1.health.Idle ∧
      (b.runAlone c f).1.providers.map Provider.identity = f.providers.map Provider.identity ∧
      ReflTransGen Store.Widening f.store (b.runAlone c f).1.store := by
  unfold runAlone
  fun_induction drive (stepAlone c ⟨0, 0⟩) c.retry.attempts f b with
  | case1 f b hs =>
    rcases h.step with ⟨now, f', b', hs', -⟩ | ⟨-, r, hr⟩
    · rw [hs] at hs'
      cases hs'
    · exact ⟨⟨r, hr⟩, h.idle (by rw [hr]; rfl), rfl, .refl⟩
  | case2 f b f' b' hs hlt ih =>
    rcases h.step with ⟨now, g, d, hs', m⟩ | ⟨hs', -⟩ <;> rw [hs] at hs' <;> cases hs'
    obtain ⟨hdone, hidle, hproviders, hstore⟩ := ih ((h.later now).move m).1
    exact ⟨hdone, hidle, hproviders.trans m.frame.providers, m.frame.store.trans hstore⟩
  | case3 f b f' b' hs hlt =>
    rcases h.step with ⟨now, g, d, hs', m⟩ | ⟨hs', -⟩ <;> rw [hs] at hs' <;> cases hs'
    exact absurd ⟨m.frame.providers_length, ((h.later now).move m).2⟩ hlt

end Batch.Alone

/-- What embedding a query leaves of the world: no call is under way, and the store may have made room for longer
vectors. -/
structure World.Asks (w w' : World) : Prop where
  providers : w'.providers.map Provider.identity = w.providers.map Provider.identity
  idle : w'.health.Idle
  store : ReflTransGen Store.Widening w.store w'.store

namespace World.Asks

theorem trans {w'' : World} (h : w.Asks w') (k : w'.Asks w'') : w.Asks w'' :=
  ⟨k.providers.trans h.providers, k.idle, h.store.trans k.store⟩

theorem alone (c : PipelineConfig) (w : World) {b : Batch} {i : Nat} (hb : b.stage = .choose i) (hw : w.health.Idle) :
    w.Asks (w.embedAlone c b).1 ∧ (w.embedAlone c b).2.isSome = true := by
  have halone : b.Alone c ⟨0, 0⟩ { w with freePermits := max 1 c.batchConcurrency } := by
    refine ⟨by rw [hb]; trivial, ?_, by rw [hb]; nofun, by rw [hb]; nofun⟩
    rw [hb]
    exact ⟨List.nodup_singleton _, rfl, fun hq => absurd rfl hq, .nil, hw.inFlight, List.nil_subperm, hw.toOpen⟩
  obtain ⟨⟨r, hr⟩, hidle, hproviders, hstore⟩ := halone.run
  refine ⟨⟨hproviders, hidle, hstore⟩, ?_⟩
  unfold embedAlone Batch.result?
  dsimp only
  rw [hr]
  rfl

theorem live (c : PipelineConfig) (w : World) (text : String) (hw : w.health.Idle) :
    w.Asks (w.embedLive c text).1 := by
  have h := (alone c w (b := ⟨[text], false, .choose 0⟩) rfl hw).1
  unfold embedLive
  generalize w.embedAlone c ⟨[text], false, .choose 0⟩ = e at h
  obtain ⟨w', r⟩ := e
  rcases r with _ | _ | e
  · exact h
  · exact h
  · dsimp only
    split <;> exact h

theorem stored (c : PipelineConfig) (w : World) (text : String) (i : Nat) (hw : w.health.Idle) :
    w.Asks (w.embedStored? c text i).1 := by
  have h := (alone c w (b := ⟨[text], true, .choose i⟩) rfl hw).1
  unfold embedStored?
  split
  · rename_i w' v signature he
    rw [he] at h
    split
    · exact h
    · split
      · rename_i p _
        have hkeeps := Registry.keepsSlots_recordSuccess w'.health p.name
        exact ⟨h.providers, ⟨hkeeps.opened h.idle.toOpen, fun name => (hkeeps.inFlight name).trans (h.idle.inFlight name)⟩,
          h.store⟩
      · exact h
  · rename_i w' r _ he
    rw [he] at h
    exact h

/-- A query leaves no call under way, and of the store it changes nothing but the room for longer vectors. -/
theorem query (c : PipelineConfig) (w : World) (text : String) (project : Option String) (hw : w.health.Idle) :
    w.Asks (w.embedQuery c text project).1 := by
  unfold embedQuery
  split
  · exact live c w text hw
  · rename_i i _
    have h := stored c w text i hw
    generalize w.embedStored? c text i = e at h
    obtain ⟨w', _ | v⟩ := e
    · exact h.trans (live c w' text h.idle)
    · exact h

end World.Asks

end CodeIndex.Embedding
