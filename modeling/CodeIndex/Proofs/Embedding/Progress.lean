import CodeIndex.Proofs.Embedding.Sweep

/-!
A run embeds all its files. Whatever the providers answer, no file is left waiting for good: a batch that waits for
a permit or a slot is told when one is given back, and while nobody has anything to do some batch waits for its time.
Each look at a file brings some batch nearer to its end, or one more batch to be told of a slot, or leaves one file
less to look at.
-/

namespace CodeIndex.Embedding

open Health

variable {c : PipelineConfig} {project : String}

theorem mapM_result?_eq_some {bs : List Batch} {results : List (Except IndexError Embedded)} :
    bs.mapM Batch.result? = some results ↔ List.Forall₂ (fun b r => b.stage = .done r) bs results := by
  induction bs generalizing results with
  | nil => cases results <;> simp
  | cons b bs ih =>
    rw [List.mapM_cons]
    cases results with
    | nil =>
      refine ⟨fun h => ?_, fun h => nomatch h⟩
      cases hb : b.result? <;> cases hm : bs.mapM Batch.result? <;> simp [hb, hm] at h
    | cons r results =>
      rw [List.forall₂_cons, ← ih]
      cases hstage : b.stage <;> simp [Batch.result?, hstage, Option.bind_eq_some_iff, and_comm]

/-- The batches of files, with their tasks. -/
def crew (jobs : List Job) : List (Task × Batch) := jobs.flatMap fun j => members j.id 0 j.batches

theorem holds_crew_perm (pre post : List Job) (j : Job) :
    (holds (crew (pre ++ j :: post))).Perm (holds (members j.id 0 j.batches) ++ holds (crew (pre ++ post))) := by
  simp only [crew, List.flatMap_append, List.flatMap_cons, holds, List.map_append]
  rw [← List.append_assoc, ← List.append_assoc]
  exact List.perm_append_comm.append_right _

theorem length_members (id i : Nat) (bs : List Batch) : (members id i bs).length = bs.length := by
  rw [← congrArg List.length (map_snd_members id i bs), List.length_map]

theorem length_crew (jobs : List Job) : (crew jobs).length = total (jobs.map (·.batches.length)) := by
  induction jobs with
  | nil => rfl
  | cons j jobs ih =>
    rw [List.map_cons, total_cons, ← ih, ← length_members j.id 0 j.batches, ← List.length_append]
    rfl

/-- Batches that hold nothing may go. -/
theorem Floor.Balanced.dismissAll {limit : Nat} {f : Floor} {hs : List (Task × Hold)} (id i : Nat) {bs : List Batch}
    (hb : ∀ b ∈ bs, b.stage.hold = .nothing) (h : f.Balanced limit (holds (members id i bs) ++ hs)) :
    f.Balanced limit hs := by
  induction bs generalizing i with
  | nil => exact h
  | cons b bs ih =>
    refine ih (i + 1) (fun b hm => hb b (List.mem_cons_of_mem _ hm)) ?_
    have hn := hb b List.mem_cons_self
    simp only [members, holds, List.map_cons, List.cons_append, hn] at h
    exact h.dismiss

/-- Batches that hold nothing may come, if their file has none yet. -/
theorem Floor.Balanced.enlistAll {limit : Nat} {f : Floor} {hs : List (Task × Hold)} (id i : Nat) {bs : List Batch}
    (hb : ∀ b ∈ bs, b.stage.hold = .nothing) (hid : ∀ h ∈ hs, h.1.file ≠ id) (h : f.Balanced limit hs) :
    f.Balanced limit (holds (members id i bs) ++ hs) := by
  induction bs generalizing i with
  | nil => exact h
  | cons b bs ih =>
    have h₁ := ih (i + 1) fun b hm => hb b (List.mem_cons_of_mem _ hm)
    have hn := hb b List.mem_cons_self
    simp only [members, holds, List.map_cons, List.cons_append, hn]
    refine h₁.enlist fun hm => ?_
    rw [List.map_append, List.mem_append] at hm
    rcases hm with hm | hm
    · simp only [holds, List.map_map, List.mem_map] at hm
      obtain ⟨e, he, heq⟩ := hm
      have hle := (file_of_mem_members he).2
      rw [show e.1 = ⟨id, i⟩ from heq] at hle
      exact Nat.lt_irrefl i hle
    · obtain ⟨e, he, heq⟩ := List.mem_map.1 hm
      exact hid e he (by rw [heq])

/-- A file that need not be looked at: some batch of it is not done, and all of them are at rest. -/
def Job.Asleep (f : Floor) (j : Job) : Prop :=
  j.results? = none ∧ ∀ e ∈ members j.id 0 j.batches, e.2.Resting e.1 f

namespace Run

variable {r r' : Run} {id : Nat}

/-- What holds of a run all the time. The file `visiting` is left out where a look at it is under way. -/
structure Live (c : PipelineConfig) (visiting : Option Nat) (r : Run) : Prop where
  balanced : r.floor.Balanced (max 1 c.batchConcurrency) (holds (crew r.active))
  ids : ((r.active ++ r.waiting).map (·.id)).Nodup
  sound : ∀ j ∈ r.active ++ r.waiting, ∀ b ∈ j.batches,
    b.stage.Sound r.floor.providers.length c.retry.attempts
  fresh : ∀ j ∈ r.waiting, ∀ b ∈ j.batches, b.stage.hold = .nothing
  attended : ∀ j ∈ r.active, some j.id ≠ visiting → j.id ∈ r.floor.ready ∨ j.Asleep r.floor

/-- What a look at a file does. -/
inductive Visited (c : PipelineConfig) (project : String) (r : Run) (id : Nat) : Run → Prop where
  | absent : (∀ j ∈ r.active, j.id ≠ id) → Visited c project r id r
  | kept (pre post : List Job) (j : Job) (floor : Floor) (bs : List Batch) : r.active = pre ++ j :: post → j.id = id →
      Sweep c id 0 r.floor j.batches floor bs → bs.mapM Batch.result? = none →
      Visited c project r id { r with floor, active := pre ++ { j with batches := bs } :: post }
  | ended (pre post : List Job) (j : Job) (floor : Floor) (bs : List Batch)
      (results : List (Except IndexError Embedded)) : r.active = pre ++ j :: post → j.id = id →
      Sweep c id 0 r.floor j.batches floor bs → bs.mapM Batch.result? = some results →
      Visited c project r id (startNext
        { r with
          floor := { floor with store := (j.finish project floor.store results).1 }
          active := pre ++ post
          outcomes := r.outcomes ++ [(j.finish project floor.store results).2] })

theorem visit_visited (hn : (r.active.map (·.id)).Nodup)
    (hs : ∀ j ∈ r.active, ∀ b ∈ j.batches, b.stage.Sound r.floor.providers.length c.retry.attempts) :
    Visited c project r id (r.visit c project id) := by
  unfold visit
  split
  · rename_i h
    exact .absent fun j hj he => by simpa [he] using List.find?_eq_none.1 h j hj
  · rename_i j h
    obtain ⟨hj, pre, post, ha, hpre⟩ := List.find?_eq_some_iff_append.1 h
    have hid : j.id = id := by simpa using hj
    have sweep := advanceAll_sweep (c := c) id 0 r.floor j.batches
      (hs j (by rw [ha]; exact List.mem_append_right _ List.mem_cons_self))
    have hpost : ∀ k ∈ post, k.id ≠ id := by
      rw [ha, List.map_append, List.map_cons] at hn
      intro k hk he
      have hnd := (List.nodup_append.1 hn).2.1
      exact (List.nodup_cons.1 hnd).1 (hid ▸ he ▸ List.mem_map_of_mem hk)
    have hpre' : ∀ k ∈ pre, k.id ≠ id := fun k hk => by simpa using hpre k hk
    subst hid
    simp only [Job.advance]
    split
    · rename_i hr
      have hm : (r.active.map fun k => if k.id == j.id then
          { j with batches := (advanceAll c j.id r.floor 0 j.batches).2 } else k) =
          pre ++ { j with batches := (advanceAll c j.id r.floor 0 j.batches).2 } :: post := by
        have hmap : ∀ l : List Job, (∀ k ∈ l, k.id ≠ j.id) → (l.map fun k => if k.id == j.id then
            { j with batches := (advanceAll c j.id r.floor 0 j.batches).2 } else k) = l := fun l hl =>
          (List.map_congr_left fun k hk => if_neg (by simpa using hl k hk)).trans (List.map_id l)
        rw [ha, List.map_append, List.map_cons, hmap pre hpre', hmap post hpost, if_pos (beq_self_eq_true _)]
      rw [hm]
      exact .kept pre post j _ _ ha rfl sweep hr
    · rename_i results hr
      have hf : r.active.filter (·.id != j.id) = pre ++ post := by
        have hfilter : ∀ l : List Job, (∀ k ∈ l, k.id ≠ j.id) → l.filter (·.id != j.id) = l := fun l hl =>
          List.filter_eq_self.2 fun k hk => bne_iff_ne.2 (hl k hk)
        rw [ha, List.filter_append, List.filter_cons_of_neg (by simp), hfilter pre hpre', hfilter post hpost]
      rw [hf]
      exact .ended pre post j _ _ results ha rfl sweep hr

theorem file_of_mem_crew {jobs : List Job} {e : Task × Batch} (h : e ∈ crew jobs) : ∃ j ∈ jobs, e.1.file = j.id := by
  obtain ⟨j, hj, he⟩ := List.mem_flatMap.1 h
  exact ⟨j, hj, (file_of_mem_members he).1⟩

theorem asleep_apart {j : Job} {f f' : Floor} {bs bs' : List Batch} (h : Sweep c id 0 f bs f' bs') (hj : j.id ≠ id)
    (ha : j.id ∈ f.ready ∨ j.Asleep f) : j.id ∈ f'.ready ∨ j.Asleep f' := by
  by_cases hr : j.id ∈ f'.ready
  · exact .inl hr
  · refine .inr ⟨?_, fun e he => ?_⟩
    · rcases ha with ha | ha
      · exact absurd (h.ready ha) hr
      · exact ha.1
    · have hf := (file_of_mem_members he).1
      have hb : e.2.Resting e.1 f ∨ e.1.file ∈ f.ready := by
        rcases ha with ha | ha
        · exact .inr (hf ▸ ha)
        · exact .inl (ha.2 e he)
      refine (h.resting_apart (fun k _ hk => hj ?_) hb).resolve_right (hf ▸ hr)
      rw [← hf, hk]

/-- What a look at one file leaves as it was for all others. -/
theorem Live.others {pre post : List Job} {j : Job} {floor : Floor} {bs : List Batch} (h : Live c (some id) r)
    (ha : r.active = pre ++ j :: post) (hid : j.id = id) (sweep : Sweep c id 0 r.floor j.batches floor bs) :
    ((pre ++ post ++ r.waiting).map (·.id)).Nodup ∧
      (∀ k ∈ pre ++ post ++ r.waiting, ∀ b ∈ k.batches, b.stage.Sound floor.providers.length c.retry.attempts) ∧
      ∀ k ∈ pre ++ post, k.id ∈ floor.ready ∨ k.Asleep floor := by
  have hids : (((j :: (pre ++ post)) ++ r.waiting).map (·.id)).Nodup := by
    refine (List.Perm.nodup_iff (List.Perm.map _ ?_)).1 h.ids
    rw [ha]
    exact List.perm_middle.append_right _
  rw [List.cons_append, List.map_cons] at hids
  obtain ⟨hj, hnd⟩ := List.nodup_cons.1 hids
  have hsub : ∀ k ∈ pre ++ post, k ∈ r.active := fun k hk => by
    rw [ha]
    exact List.mem_append.2 ((List.mem_append.1 hk).imp_right (List.mem_cons_of_mem j))
  refine ⟨hnd, fun k hk b hb => ?_, fun k hk => ?_⟩
  · rw [sweep.providers_length]
    exact h.sound k (List.mem_append.2 ((List.mem_append.1 hk).imp_left (hsub k))) b hb
  · have hne : k.id ≠ id := fun he =>
      hj (hid ▸ he ▸ List.mem_map_of_mem (List.mem_append_left _ hk))
    exact asleep_apart sweep hne (h.attended k (hsub k hk) fun he => hne (Option.some.inj he))

theorem Live.kept {pre post : List Job} {j : Job} {floor : Floor} {bs : List Batch} (h : Live c (some id) r)
    (ha : r.active = pre ++ j :: post) (hid : j.id = id) (sweep : Sweep c id 0 r.floor j.batches floor bs)
    (hr : bs.mapM Batch.result? = none) :
    Live c none { r with floor, active := pre ++ { j with batches := bs } :: post } := by
  subst hid
  obtain ⟨-, hsound, hothers⟩ := h.others ha rfl sweep
  refine ⟨?_, ?_, ?_, h.fresh, ?_⟩
  · have hb := sweep.balanced ((ha ▸ h.balanced).perm (holds_crew_perm pre post j))
    exact hb.perm (holds_crew_perm pre post { j with batches := bs }).symm
  · have hids := h.ids
    rw [ha] at hids
    simpa using hids
  · intro k hk
    simp only [List.append_assoc, List.cons_append, List.mem_append, List.mem_cons] at hk hsound
    rcases hk with hk | rfl | hk | hk
    · exact hsound k (.inl hk)
    · refine sweep.sound (h.sound j ?_)
      rw [ha]
      exact List.mem_append_left _ (List.mem_append_right _ List.mem_cons_self)
    · exact hsound k (.inr (.inl hk))
    · exact hsound k (.inr (.inr hk))
  · intro k hk _
    rcases List.mem_append.1 hk with hk | hk
    · exact hothers k (List.mem_append_left _ hk)
    rcases List.mem_cons.1 hk with rfl | hk
    · by_cases hready : j.id ∈ floor.ready
      · exact .inl hready
      · exact .inr ⟨hr, fun e he => (sweep.resting e he).resolve_right hready⟩
    · exact hothers k (List.mem_append_right _ hk)

theorem Live.dropped {pre post : List Job} {j : Job} {floor : Floor} {bs : List Batch} {store : Store}
    {outcomes : List Outcome} {results : List (Except IndexError Embedded)} (h : Live c (some id) r)
    (ha : r.active = pre ++ j :: post) (hid : j.id = id) (sweep : Sweep c id 0 r.floor j.batches floor bs)
    (hr : bs.mapM Batch.result? = some results) :
    Live c none { r with floor := { floor with store }, active := pre ++ post, outcomes } := by
  subst hid
  obtain ⟨hids, hsound, hothers⟩ := h.others ha rfl sweep
  refine ⟨?_, hids, hsound, h.fresh, fun k hk _ => hothers k hk⟩
  have hb := sweep.balanced ((ha ▸ h.balanced).perm (holds_crew_perm pre post j))
  have hdone : ∀ b ∈ bs, b.stage.hold = .nothing := by
    refine ((List.forall₂_and_left (R := fun _ _ => True) bs results).1 ?_).1
    refine (mapM_result?_eq_some.1 hr).imp fun b r he => ⟨?_, trivial⟩
    rw [he]
    rfl
  exact (hb.dismissAll j.id 0 hdone).frame rfl rfl rfl rfl rfl (.refl _)

/-- A file that is looked at more often is no worse off. -/
theorem Live.wake {visiting : Option Nat} {floor : Floor} (h : Live c visiting r)
    (he : floor = { r.floor with now := floor.now, ready := floor.ready }) (hr : r.floor.ready ⊆ floor.ready) :
    Live c visiting { r with floor } := by
  rw [he] at hr ⊢
  exact ⟨h.balanced.frame rfl rfl rfl rfl rfl (.refl _), h.ids, h.sound, h.fresh,
    fun j hj hv => (h.attended j hj hv).imp_left fun hm => hr hm⟩

theorem Live.startNext (h : Live c none r) : Live c none r.startNext := by
  unfold Run.startNext
  split
  · exact h
  · rename_i j rest hw
    have hwake : (r.floor.wake j.id) =
        { r.floor with now := (r.floor.wake j.id).now, ready := (r.floor.wake j.id).ready } := by
      rw [Floor.wake_eq]
    have h₁ := h.wake hwake fun id hm => Floor.mem_ready_wake.2 (.inl hm)
    have hids := h.ids
    rw [hw] at hids
    refine ⟨?_, by simpa using hids, ?_, ?_, ?_⟩
    · have hb := h₁.balanced
      have hfresh : ∀ b ∈ j.batches, b.stage.hold = .nothing := h.fresh j (by simp [hw])
      have hne : ∀ e ∈ holds (crew r.active), e.1.file ≠ j.id := by
        intro e he heq
        obtain ⟨x, hx, rfl⟩ := List.mem_map.1 he
        obtain ⟨k, hk, hf⟩ := file_of_mem_crew hx
        rw [List.map_append, List.map_cons] at hids
        exact (List.nodup_append.1 hids).2.2 k.id (List.mem_map_of_mem hk) j.id List.mem_cons_self
          (hf.symm.trans heq)
      have hp := (holds_crew_perm r.active [] j).symm
      rw [List.append_nil] at hp
      exact (hb.enlistAll j.id 0 hfresh hne).perm hp
    · intro k hk
      refine h₁.sound k ?_
      simpa [hw] using hk
    · intro k hk
      exact h.fresh k (by rw [hw]; exact List.mem_cons_of_mem _ hk)
    · intro k hk hv
      rcases List.mem_append.1 hk with hk | hk
      · exact h₁.attended k hk hv
      · rw [List.mem_singleton.1 hk]
        exact .inl (Floor.mem_ready_wake.2 (.inr rfl))

theorem Live.visited (h : Live c (some id) r) (v : Visited c project r id r') : Live c none r' := by
  cases v with
  | absent ha => exact ⟨h.balanced, h.ids, h.sound, h.fresh,
      fun j hj _ => h.attended j hj fun he => ha j hj (Option.some.inj he)⟩
  | kept pre post j floor bs ha hid sweep hr => exact h.kept ha hid sweep hr
  | ended pre post j floor bs results ha hid sweep hr => exact (h.dropped ha hid sweep hr).startNext

/-- Files wait for others only. -/
def Fed (r : Run) : Prop := r.active = [] → r.waiting = []

theorem fed_startNext (r : Run) : r.startNext.Fed := by
  intro h
  unfold startNext at h ⊢
  split at h
  · assumption
  · simp at h

theorem Fed.visited (h : r.Fed) (v : Visited c project r id r') : r'.Fed := by
  cases v with
  | absent => exact h
  | kept => exact fun he => by simp at he
  | ended => exact fed_startNext _

theorem mem_batches_of_mem_crew {jobs : List Job} {e : Task × Batch} (h : e ∈ crew jobs) :
    ∃ j ∈ jobs, e.2 ∈ j.batches ∧ e ∈ members j.id 0 j.batches := by
  obtain ⟨j, hj, he⟩ := List.mem_flatMap.1 h
  refine ⟨j, hj, ?_, he⟩
  rw [← map_snd_members j.id 0 j.batches]
  exact List.mem_map_of_mem he

theorem mapM_result?_isSome {bs : List Batch} (h : ∀ b ∈ bs, ∃ r, b.stage = .done r) :
    ∃ results, bs.mapM Batch.result? = some results := by
  induction bs with
  | nil => exact ⟨[], rfl⟩
  | cons b bs ih =>
    obtain ⟨r, hr⟩ := h b List.mem_cons_self
    obtain ⟨results, hm⟩ := ih fun b hb => h b (List.mem_cons_of_mem _ hb)
    exact ⟨r :: results, mapM_result?_eq_some.2 (.cons hr (mapM_result?_eq_some.1 hm))⟩

theorem alarms_eq_nil (h : r.alarms = []) {e : Task × Batch} (he : e ∈ crew r.active) :
    e.2.wakeAt? r.floor = none := by
  obtain ⟨j, hj, hb, -⟩ := mem_batches_of_mem_crew he
  rw [alarms, List.flatMap_eq_nil_iff] at h
  have hn := List.filterMap_eq_nil_iff.1 (h j hj) e.2 hb
  cases hw : e.2.wakeAt? r.floor with
  | none => rfl
  | some w => simp [hw] at hn

/-- A run in which nobody has anything to do: the batches under way are at rest, and none of them waits for its time. -/
structure Quiet (r : Run) : Prop where
  resting : ∀ e ∈ crew r.active, e.2.Resting e.1 r.floor
  untimed : ∀ e ∈ crew r.active, e.2.wakeAt? r.floor = none

theorem Live.asleep (h : Live c none r) (hready : r.floor.ready = []) {j : Job} (hj : j ∈ r.active) :
    j.Asleep r.floor :=
  (h.attended j hj (by simp)).resolve_left (by simp [hready])

theorem Live.quiet (h : Live c none r) (hready : r.floor.ready = []) (halarms : r.alarms = []) : r.Quiet := by
  refine ⟨fun e he => ?_, fun e he => alarms_eq_nil halarms he⟩
  obtain ⟨j, hj, -, hm⟩ := mem_batches_of_mem_crew he
  exact (h.asleep hready hj).2 e hm

namespace Quiet

variable {e : Task × Batch}

theorem hold_ne_slot (hq : r.Quiet) (he : e ∈ crew r.active) (i : Nat) : e.2.stage.hold ≠ .slot i := by
  intro hh
  have hr := hq.resting e he
  have hw := hq.untimed e he
  unfold Batch.Resting at hr
  unfold Batch.wakeAt? at hw
  cases hstage : e.2.stage <;> simp only [hstage, Stage.hold, reduceCtorEq] at hr hw hh

theorem done_of_hold (hq : r.Quiet) (he : e ∈ crew r.active) (hh : e.2.stage.hold = .nothing) :
    ∃ result, e.2.stage = .done result := by
  have hr := hq.resting e he
  have hw := hq.untimed e he
  unfold Batch.Resting at hr
  unfold Batch.wakeAt? at hw
  cases hstage : e.2.stage <;> simp [hstage, Stage.hold] at hr hw hh ⊢

theorem inFlight_eq_zero (hq : r.Quiet) (h : Live c none r) (name : String) :
    (r.floor.health.get name).inFlight = 0 := by
  rw [h.balanced.slots, List.countP_eq_zero]
  intro x hx hu
  obtain ⟨e, he, rfl⟩ := List.mem_map.1 hx
  cases hh : e.2.stage.hold with
  | slot i => exact hq.hold_ne_slot he i hh
  | nothing | awaitsPermit | awaitsSlot => simp [hh, Hold.usesSlot] at hu

/-- With no call in flight a provider has a slot to give, or it is known when it has. -/
theorem hold_ne_awaitsSlot (hq : r.Quiet) (h : Live c none r) (he : e ∈ crew r.active) :
    e.2.stage.hold ≠ .awaitsSlot := by
  intro hh
  obtain ⟨j, hj, hb, -⟩ := mem_batches_of_mem_crew he
  have hs := h.sound j (List.mem_append_left _ hj) e.2 hb
  have hw := hq.untimed e he
  unfold Batch.wakeAt? at hw
  cases hstage : e.2.stage <;> simp only [hstage, Stage.hold, Stage.Sound, reduceCtorEq] at hs hw hh
  rw [List.getElem?_eq_getElem hs, Option.bind_some, Batch.slotWake?,
    Entry.pollWait?_of_idle h.balanced.opened.default (h.balanced.opened.recommended _) (hq.inFlight_eq_zero h _)] at hw
  cases hw

theorem granted_eq_nil (hq : r.Quiet) (h : Live c none r) : r.floor.granted = [] := by
  refine List.eq_nil_iff_forall_not_mem.2 fun t ht => ?_
  have hm := Hold.mem_those.1 (h.balanced.waits.subset (List.mem_append_right _ ht))
  obtain ⟨e, he, heq⟩ := List.mem_map.1 hm
  have hr := hq.resting e he
  obtain ⟨rfl, hh⟩ := Prod.mk.inj heq
  unfold Batch.Resting at hr
  cases hstage : e.2.stage <;> simp only [hstage, Stage.hold, reduceCtorEq] at hr hh
  exact hr ht

theorem freePermits_pos (hq : r.Quiet) (h : Live c none r) : 0 < r.floor.freePermits := by
  have hp := h.balanced.permits
  have hc : (holds (crew r.active)).countP (·.2.hasPermit) = 0 := by
    rw [List.countP_eq_zero]
    intro x hx hu
    obtain ⟨e, he, rfl⟩ := List.mem_map.1 hx
    cases hh : e.2.stage.hold with
    | slot i => exact hq.hold_ne_slot he i hh
    | awaitsSlot => exact hq.hold_ne_awaitsSlot h he hh
    | nothing | awaitsPermit => simp [hh, Hold.hasPermit] at hu
  rw [hq.granted_eq_nil h, hc] at hp
  have := Nat.le_max_left 1 c.batchConcurrency
  simp only [List.length_nil] at hp
  omega

/-- Nobody waits for a permit while one is free. -/
theorem hold_ne_awaitsPermit (hq : r.Quiet) (h : Live c none r) (he : e ∈ crew r.active) :
    e.2.stage.hold ≠ .awaitsPermit := by
  intro hh
  have hm : e.1 ∈ Hold.those .awaitsPermit (holds (crew r.active)) :=
    Hold.mem_those.2 (List.mem_map.2 ⟨e, he, by rw [hh]⟩)
  have hwaits := h.balanced.waits.symm.subset hm
  rw [hq.granted_eq_nil h, List.append_nil] at hwaits
  have hz := h.balanced.queue (List.ne_nil_of_mem hwaits)
  have hfree := hq.freePermits_pos h
  omega

theorem done (hq : r.Quiet) (h : Live c none r) (he : e ∈ crew r.active) : ∃ result, e.2.stage = .done result := by
  refine hq.done_of_hold he ?_
  cases hh : e.2.stage.hold with
  | nothing => rfl
  | slot i => exact absurd hh (hq.hold_ne_slot he i)
  | awaitsSlot => exact absurd hh (hq.hold_ne_awaitsSlot h he)
  | awaitsPermit => exact absurd hh (hq.hold_ne_awaitsPermit h he)

end Quiet

/-- While files are under way, some file is to be looked at or some batch waits for its time: else all batches of a
file would be done, and the file with them. -/
theorem Live.not_stuck (h : Live c none r) (hready : r.floor.ready = []) (hactive : r.active ≠ []) :
    r.alarms ≠ [] := by
  intro halarms
  have hq := h.quiet hready halarms
  obtain ⟨j, hj⟩ := List.exists_mem_of_ne_nil _ hactive
  have hdone : ∀ b ∈ j.batches, ∃ result, b.stage = .done result := by
    intro b hb
    rw [← map_snd_members j.id 0 j.batches] at hb
    obtain ⟨e, hm, rfl⟩ := List.mem_map.1 hb
    exact hq.done h (List.mem_flatMap.2 ⟨j, hj, hm⟩)
  obtain ⟨results, hr⟩ := mapM_result?_isSome hdone
  have hn := (h.asleep hready hj).1
  rw [Job.results?, hr] at hn
  cases hn

/-- Whether a file has a batch whose time has come. -/
def Due (r : Run) (now id : Nat) : Prop :=
  ∃ j ∈ r.active, j.id = id ∧ ∃ b ∈ j.batches, ∃ wake, b.wakeAt? r.floor = some wake ∧ wake ≤ now

/-- When time passes, some file is to be looked at, and so is none but those that were and those whose time has
come. -/
theorem awaken?_spec (h : r.alarms ≠ []) :
    ∃ floor, r.awaken? = some { r with floor } ∧
      floor = { r.floor with now := floor.now, ready := floor.ready } ∧ r.floor.ready ⊆ floor.ready ∧
      floor.ready ≠ [] ∧ ∀ id ∈ floor.ready, id ∈ r.floor.ready ∨ r.Due floor.now id := by
  unfold awaken?
  cases ha : r.alarms.map (·.1) with
  | nil => exact absurd (List.map_eq_nil_iff.1 ha) h
  | cons t ts =>
    have halarm : ∀ a ∈ r.alarms, a.1 ≤ ts.foldl min t → r.Due (max r.floor.now (ts.foldl min t)) a.2.2 := by
      intro a hm hle
      obtain ⟨j, hj, hm⟩ := List.mem_flatMap.1 hm
      obtain ⟨b, hb, he⟩ := List.mem_filterMap.1 hm
      obtain ⟨wake, hw, rfl⟩ := Option.map_eq_some_iff.1 he
      exact ⟨j, hj, rfl, b, hb, wake, hw, Nat.le_trans hle (Nat.le_max_right _ _)⟩
    have hdue : ∀ a, a ∈ (r.alarms.filter (·.1 ≤ ts.foldl min t)).mergeSort
        (fun a b => decide (a.2.1 ≤ b.2.1)) ↔ a ∈ r.alarms ∧ a.1 ≤ ts.foldl min t := by
      intro a
      rw [List.mem_mergeSort, List.mem_filter, decide_eq_true_iff]
    refine ⟨_, rfl, ?_, ?_, ?_, ?_⟩
    · rw [Floor.wakeAll_eq]
    · exact fun id hm => (Floor.mem_ready_wakeAll _).2 (.inl hm)
    · have hfirst : ts.foldl min t ∈ t :: ts := List.min?_mem List.min?_cons'
      obtain ⟨a, hm, hmin⟩ := List.mem_map.1 (ha ▸ hfirst)
      refine List.ne_nil_of_mem ((Floor.mem_ready_wakeAll _).2 (.inr (List.mem_map_of_mem ((hdue a).2 ⟨hm, ?_⟩))))
      exact Nat.le_of_eq hmin
    · intro id hm
      rcases (Floor.mem_ready_wakeAll _).1 hm with hm | hm
      · exact .inl hm
      · obtain ⟨a, ha, rfl⟩ := List.mem_map.1 hm
        obtain ⟨ha, hle⟩ := (hdue a).1 ha
        rw [Floor.wakeAll_eq]
        exact .inr (halarm a ha hle)

theorem step_ne_none {t : Task} {f : Floor} {b : Batch} {wake : Nat} (h : b.wakeAt? f = some wake)
    (hw : wake ≤ f.now) : b.step c t f ≠ none := by
  unfold Batch.wakeAt? at h
  unfold Batch.step
  cases hstage : b.stage <;> simp only [hstage, reduceCtorEq] at h ⊢
  · rename_i i since
    cases hp : f.providers[i]? with
    | none => simp
    | some p =>
      rw [hp, Option.bind_some] at h
      simp [h, hw]
  · cases h
    simp [hw]
  · cases h
    simp [hw]

/-- What files still have to go, and one for each of them. -/
def load (c : PipelineConfig) (n : Nat) (jobs : List Job) : Nat := total (jobs.map fun j => remaining c n j.batches + 1)

theorem distance_eq (c : PipelineConfig) (r : Run) :
    r.distance c = load c r.floor.providers.length (r.active ++ r.waiting) := rfl

theorem load_append (n : Nat) (as bs : List Job) : load c n (as ++ bs) = load c n as + load c n bs := by
  rw [load, List.map_append, total_append, load, load]

theorem load_cons (n : Nat) (j : Job) (jobs : List Job) :
    load c n (j :: jobs) = remaining c n j.batches + 1 + load c n jobs := by
  rw [load, List.map_cons, total_cons, load]

/-- The number of batches. -/
def batches (r : Run) : Nat := total ((r.active ++ r.waiting).map (·.batches.length))

theorem distance_startNext (c : PipelineConfig) (r : Run) : r.startNext.distance c = r.distance c := by
  unfold startNext
  split
  · rfl
  · rename_i j rest hw
    have hp : (r.floor.wake j.id).providers = r.floor.providers := by rw [Floor.wake_eq]
    simp only [distance_eq, hp, hw, List.append_assoc, List.singleton_append]

theorem Live.slotQueue_le {visiting : Option Nat} (h : Live c visiting r) :
    r.floor.slotQueue.length ≤ r.batches := by
  have hle := h.balanced.told.length_le
  have hsub := (Hold.those_sublist .awaitsSlot (holds (crew r.active))).length_le
  have hlen : ((holds (crew r.active)).map (·.1)).length = total (r.active.map (·.batches.length)) := by
    rw [List.length_map, holds, List.length_map, length_crew]
  rw [batches, List.map_append, total_append]
  omega

/-- What a look at a file gains. -/
theorem Visited.gain (v : Visited c project r id r') (hn : (r.active.map (·.id)).Nodup) :
    r'.distance c < r.distance c ∨
      (r'.distance c = r.distance c ∧ r'.batches = r.batches ∧
        r.floor.slotQueue.length < r'.floor.slotQueue.length) ∨
      (r' = r ∧ ∀ j ∈ r.active, j.id = id → ∀ e ∈ members id 0 j.batches, e.2.step c e.1 r.floor = none) := by
  cases v with
  | absent ha => exact .inr (.inr ⟨rfl, fun j hj he => absurd he (ha j hj)⟩)
  | kept pre post j floor bs ha hid sweep hr =>
    have hlen := sweep.length
    simp only [distance_eq, batches, sweep.providers_length, ha, load_append, load_cons, List.map_append,
      total_append, List.map_cons, total_cons, hlen]
    rcases sweep.gain with hlt | ⟨heq, hq⟩ | ⟨hf, hb, hstep⟩
    · exact .inl (by omega)
    · exact .inr (.inl ⟨by omega, trivial, hq⟩)
    · refine .inr (.inr ⟨?_, fun k hk he => ?_⟩)
      · cases r
        simp only [Run.mk.injEq] at hf ha ⊢
        exact ⟨hf, by rw [ha, hb], trivial, trivial⟩
      · have hkj : k = j := List.inj_on_of_nodup_map hn (ha ▸ hk) (by simp [ha]) (he.trans hid.symm)
        rw [hkj]
        exact hstep
  | ended pre post j floor bs results ha hid sweep hr =>
    left
    rw [distance_startNext]
    simp only [distance_eq, sweep.providers_length, ha, load_append, load_cons]
    omega

/-- The file that is looked at next leaves the queue. -/
theorem Live.next {rest : List Nat} (h : Live c none r) (hr : r.floor.ready = id :: rest) :
    Live c (some id) { r with floor := { r.floor with ready := rest } } where
  balanced := h.balanced.frame rfl rfl rfl rfl rfl (.refl _)
  ids := h.ids
  sound := h.sound
  fresh := h.fresh
  attended j hj hne := (h.attended j hj (by simp)).imp_left fun hm => by
    rw [hr] at hm
    exact (List.mem_cons.1 hm).resolve_left fun he => hne (by rw [he])

theorem Live.visit (h : Live c none r) (project : String) (id : Nat) (rest : List Nat) :
    Visited c project { r with floor := { r.floor with ready := rest } } id
      (Run.visit c project { r with floor := { r.floor with ready := rest } } id) := by
  have hids := h.ids
  rw [List.map_append] at hids
  exact visit_visited (List.nodup_append.1 hids).1 fun j hj => h.sound j (List.mem_append_left _ hj)

theorem lighter_iff {a b : Nat × Nat × Nat} :
    lighter a b = true ↔ a.1 < b.1 ∨ a.1 = b.1 ∧ (a.2.1 < b.2.1 ∨ a.2.1 = b.2.1 ∧ a.2.2 < b.2.2) := by
  simp [lighter]

theorem work_eq (c : PipelineConfig) (r : Run) :
    r.work c = (r.distance c, r.batches - r.floor.slotQueue.length, r.floor.ready.length) := rfl

/-- Where some file is to be looked at, the step that looks at the first leads nearer to the end. -/
theorem Live.look {rest : List Nat} (h : Live c none r) (hf : r.Fed) (hr : r.floor.ready = id :: rest) (project : String) :
    ∃ r', Run.visit c project { r with floor := { r.floor with ready := rest } } id = r' ∧ Live c none r' ∧ r'.Fed ∧
      (r'.distance c < r.distance c ∨ r'.distance c = r.distance c ∧
          r'.batches - r'.floor.slotQueue.length < r.batches - r.floor.slotQueue.length ∨
        r'.work c = (r.distance c, r.batches - r.floor.slotQueue.length, rest.length) ∧
          ∀ j ∈ r.active, j.id = id → ∀ e ∈ members id 0 j.batches,
            e.2.step c e.1 { r.floor with ready := rest } = none) := by
  have v := h.visit project id rest
  obtain ⟨r', hr'⟩ : ∃ r', Run.visit c project { r with floor := { r.floor with ready := rest } } id = r' := ⟨_, rfl⟩
  rw [hr'] at v
  have hlive := (h.next hr).visited v
  have hfed : Run.Fed { r with floor := { r.floor with ready := rest } } := hf
  have hids := h.ids
  rw [List.map_append] at hids
  refine ⟨r', hr', hlive, hfed.visited v, ?_⟩
  have hn : (r.active.map (·.id)).Nodup := (List.nodup_append.1 hids).1
  rcases v.gain hn with hlt | ⟨heq, hb, hq⟩ | ⟨he, hnone⟩
  · exact .inl hlt
  · have hle := hlive.slotQueue_le
    have hb' : r'.batches = r.batches := hb
    have hq' : r.floor.slotQueue.length < r'.floor.slotQueue.length := hq
    refine .inr (.inl ⟨heq, ?_⟩)
    rw [hb'] at hle ⊢
    omega
  · refine .inr (.inr ⟨?_, hnone⟩)
    rw [he]
    rfl

/-- Every step leads nearer to the end, and there is one until all files are done. -/
theorem Live.step (h : Live c none r) (hf : r.Fed) (project : String) :
    (r.step? c project = none ∧ r.active = [] ∧ r.waiting = []) ∨
      ∃ r', r.step? c project = some r' ∧ lighter (r'.work c) (r.work c) = true ∧ Live c none r' ∧ r'.Fed := by
  cases hready : r.floor.ready with
  | cons id rest =>
    right
    obtain ⟨r', hv, hlive, hfed, hgain⟩ := h.look hf hready project
    refine ⟨r', by simp [step?, hready, hv], ?_, hlive, hfed⟩
    rw [lighter_iff]
    rcases hgain with hlt | ⟨heq, hlt⟩ | ⟨hw, -⟩
    · exact .inl hlt
    · exact .inr ⟨heq, .inl hlt⟩
    · rw [hw, work_eq, hready]
      exact .inr ⟨rfl, .inr ⟨rfl, Nat.lt_succ_self _⟩⟩
  | nil =>
    by_cases hactive : r.active = []
    · left
      refine ⟨?_, hactive, hf hactive⟩
      have ha : r.awaken? = none := by simp [awaken?, alarms, hactive]
      simp [step?, hready, ha]
    · right
      obtain ⟨floor, ha, hfloor, hsub, hne, hdue⟩ := awaken?_spec (h.not_stuck hready hactive)
      obtain ⟨id, rest, hrest⟩ := List.exists_cons_of_ne_nil hne
      have hwake := h.wake hfloor hsub
      have hfed₀ : Run.Fed { r with floor } := hf
      obtain ⟨r', hv, hlive, hfed, hgain⟩ := hwake.look hfed₀ hrest project
      refine ⟨r', by simp [step?, hready, ha, hrest, hv], ?_, hlive, hfed⟩
      have hd : Run.distance c { r with floor } = r.distance c := by
        rw [distance_eq, distance_eq]
        simp only
        rw [hfloor]
      have hq : floor.slotQueue = r.floor.slotQueue := by rw [hfloor]
      rw [lighter_iff, work_eq, work_eq]
      rcases hgain with hlt | ⟨heq, hlt⟩ | ⟨-, hnone⟩
      · exact .inl (hd ▸ hlt)
      · refine .inr ⟨heq.trans hd, .inl ?_⟩
        simp only [hq] at hlt
        exact hlt
      · obtain ⟨j, hj, hid, b, hb, wake, hw, hle⟩ := (hdue id (by rw [hrest]; exact List.mem_cons_self)).resolve_left
          (by rw [hready]; exact List.not_mem_nil)
        rw [← map_snd_members id 0 j.batches] at hb
        obtain ⟨e, he, rfl⟩ := List.mem_map.1 hb
        refine absurd (hnone j hj hid e he) (step_ne_none ?_ hle)
        rw [hfloor]
        exact hw

/-- A run ends with all its files done. -/
theorem Live.complete (h : Live c none r) (hf : r.Fed) (project : String) :
    Live c none (r.complete c project) ∧ (r.complete c project).active = [] ∧
      (r.complete c project).waiting = [] := by
  fun_induction Run.complete c project r with
  | case1 r hs =>
    rcases h.step hf project with ⟨-, ha, hw⟩ | ⟨r', hr, -⟩
    · exact ⟨h, ha, hw⟩
    · rw [hs] at hr
      cases hr
  | case2 r r' hs hlt ih =>
    rcases h.step hf project with ⟨hn, -⟩ | ⟨r₁, hr, -, hlive, hfed⟩
    · rw [hs] at hn
      cases hn
    · rw [hs] at hr
      cases hr
      exact ih hlive hfed
  | case3 r r' hs hlt =>
    rcases h.step hf project with ⟨hn, -⟩ | ⟨r₁, hr, hl, -⟩
    · rw [hs] at hn
      cases hn
    · rw [hs] at hr
      cases hr
      exact absurd hl hlt

/-- The files of a run, as they are before anything is done for them. -/
def jobs (c : PipelineConfig) (files : List Prepared) : List Job :=
  files.zipIdx.map fun (p, id) => Job.ofPrepared c id p

theorem start_jobs (c : PipelineConfig) (w : World) (files : List Prepared) :
    (start c w files).active ++ (start c w files).waiting = jobs c files := List.take_append_drop _ _

theorem map_id_jobs (c : PipelineConfig) (files : List Prepared) :
    (jobs c files).map (·.id) = List.range files.length := by
  rw [jobs, List.map_map]
  have h : (fun j : Job => j.id) ∘ (fun x : Prepared × Nat => Job.ofPrepared c x.2 x.1) = Prod.snd := rfl
  rw [h, List.zipIdx_map_snd, List.range_eq_range']

theorem stage_of_mem_jobs {files : List Prepared} {j : Job} (hj : j ∈ jobs c files) :
    ∀ b ∈ j.batches, b.stage = .choose 0 := by
  obtain ⟨⟨p, id⟩, -, rfl⟩ := List.mem_map.1 hj
  intro b hb
  obtain ⟨texts, -, rfl⟩ := List.mem_map.1 hb
  rfl

theorem balanced_crew {limit : Nat} {f : Floor} {js : List Job} (h : f.Balanced limit [])
    (hids : (js.map (·.id)).Nodup) (hn : ∀ j ∈ js, ∀ b ∈ j.batches, b.stage.hold = .nothing) :
    f.Balanced limit (holds (crew js)) := by
  induction js with
  | nil => exact h
  | cons j js ih =>
    rw [List.map_cons] at hids
    obtain ⟨hj, hids⟩ := List.nodup_cons.1 hids
    have hb := ih hids fun k hk => hn k (List.mem_cons_of_mem j hk)
    have hc := hb.enlistAll j.id 0 (hn j List.mem_cons_self) fun x hx he => by
      obtain ⟨e, he', rfl⟩ := List.mem_map.1 hx
      obtain ⟨k, hk, hf⟩ := file_of_mem_crew he'
      exact hj (List.mem_map.2 ⟨k, hk, hf.symm.trans he⟩)
    rw [crew, List.flatMap_cons, holds, List.map_append]
    exact hc

theorem live_start {w : World} (h : w.health.Idle) (files : List Prepared) :
    Live c none (start c w files) ∧ (start c w files).Fed := by
  have hjobs := start_jobs c w files
  have hids : (((start c w files).active ++ (start c w files).waiting).map (·.id)).Nodup := by
    rw [hjobs, map_id_jobs]
    exact List.nodup_range
  have hstage : ∀ j ∈ (start c w files).active ++ (start c w files).waiting, ∀ b ∈ j.batches, b.stage = .choose 0 := by
    rw [hjobs]
    exact fun j hj => stage_of_mem_jobs hj
  have hnothing : ∀ j ∈ (start c w files).active ++ (start c w files).waiting, ∀ b ∈ j.batches,
      b.stage.hold = .nothing := fun j hj b hb => by
    rw [hstage j hj b hb]
    rfl
  have hempty : (start c w files).floor.Balanced (max 1 c.batchConcurrency) [] :=
    ⟨List.nodup_nil, rfl, fun hq => absurd rfl hq, .nil, h.inFlight, List.nil_subperm, h.toOpen⟩
  refine ⟨⟨?_, hids, ?_, ?_, ?_⟩, ?_⟩
  · rw [List.map_append] at hids
    exact balanced_crew hempty (List.nodup_append.1 hids).1 fun j hj => hnothing j (List.mem_append_left _ hj)
  · intro j hj b hb
    rw [hstage j hj b hb]
    trivial
  · exact fun j hj => hnothing j (List.mem_append_right _ hj)
  · exact fun j hj _ => .inl (List.mem_map_of_mem hj)
  · intro ha
    have hm := Nat.le_max_left 1 c.fileConcurrency
    rcases List.take_eq_nil_iff.1 ha with h0 | h0
    · omega
    · simp only [start, h0, List.drop_nil]

/-- After a run no call is in flight. -/
theorem idle_complete {w : World} (h : w.health.Idle) (files : List Prepared) :
    ((start c w files).complete c project).floor.health.Idle := by
  obtain ⟨hl, hf⟩ := live_start (c := c) h files
  obtain ⟨hl, ha, -⟩ := hl.complete hf project
  have hb := hl.balanced
  rw [ha] at hb
  exact ⟨hb.opened, hb.slots⟩

end Run

end CodeIndex.Embedding
