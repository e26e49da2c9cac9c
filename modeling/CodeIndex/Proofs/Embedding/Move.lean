import CodeIndex.Embedding.Batch
import CodeIndex.Proofs.Health.Slots

/-!
What one step of a batch can do. All that is known of batches under way is derived from this list: what a step
leaves alone, how far it gets, and where a batch comes to rest.
-/

namespace CodeIndex.Embedding

open Health

namespace Floor

variable {f : Floor} {file id : Nat}

theorem wake_eq (f : Floor) (file : Nat) : f.wake file = { f with ready := (f.wake file).ready } := by
  unfold wake
  split <;> rfl

theorem mem_ready_wake : id ∈ (f.wake file).ready ↔ id ∈ f.ready ∨ id = file := by
  unfold wake
  split
  · rename_i h
    rw [List.contains_iff_mem] at h
    exact ⟨.inl, fun hid => hid.elim (fun hm => hm) fun he => he ▸ h⟩
  · simp

theorem wakeAll_eq (f : Floor) (files : List Nat) :
    files.foldl wake f = { f with ready := (files.foldl wake f).ready } := by
  induction files generalizing f with
  | nil => rfl
  | cons file files ih =>
    rw [List.foldl_cons, ih, wake_eq]

theorem mem_ready_wakeAll (files : List Nat) : id ∈ (files.foldl wake f).ready ↔ id ∈ f.ready ∨ id ∈ files := by
  induction files generalizing f with
  | nil => simp
  | cons file files ih =>
    rw [List.foldl_cons, ih, mem_ready_wake, List.mem_cons, or_assoc]

theorem releaseSlot_eq (f : Floor) (provider : String) :
    f.releaseSlot provider =
      { f with health := f.health.release provider, slotQueue := [], ready := (f.releaseSlot provider).ready } := by
  rw [releaseSlot, wakeAll_eq]

theorem mem_ready_releaseSlot (provider : String) :
    id ∈ (f.releaseSlot provider).ready ↔ id ∈ f.ready ∨ ∃ t ∈ f.slotQueue, t.file = id := by
  rw [releaseSlot, mem_ready_wakeAll, List.mem_map]

/-- A permit given back is free, or the first who waits for one has it and is to be looked at. -/
theorem releasePermit_cases (f : Floor) :
    (f.permitQueue = [] ∧ f.releasePermit = { f with freePermits := f.freePermits + 1 }) ∨
      ∃ t rest, f.permitQueue = t :: rest ∧ t.file ∈ f.releasePermit.ready ∧
        f.releasePermit =
          { f with permitQueue := rest, granted := f.granted ++ [t], ready := f.releasePermit.ready } := by
  unfold releasePermit
  split
  · rename_i h
    exact .inl ⟨h, rfl⟩
  · rename_i t rest h
    exact .inr ⟨t, rest, h, mem_ready_wake.2 (.inr rfl), wake_eq _ _⟩

theorem ready_subset_releasePermit (f : Floor) : f.ready ⊆ f.releasePermit.ready := by
  intro id h
  unfold releasePermit
  split
  · exact h
  · exact mem_ready_wake.2 (.inl h)

theorem length_setProvider (f : Floor) (i : Nat) (p : Provider) :
    (f.setProvider i p).providers.length = f.providers.length := List.length_set

/-- What a call that is over leaves of the chain and its health. -/
theorem finish_eq (f : Floor) (i : Nat) (p : Provider) (texts : List String) :
    (((f.setProvider i (p.call texts).1).releaseSlot p.name).releasePermit).providers =
        f.providers.set i (p.call texts).1 ∧
      (((f.setProvider i (p.call texts).1).releaseSlot p.name).releasePermit).health = f.health.release p.name := by
  rcases releasePermit_cases ((f.setProvider i (p.call texts).1).releaseSlot p.name) with
    ⟨-, he⟩ | ⟨_, _, -, -, he⟩ <;> rw [he, releaseSlot_eq] <;> exact ⟨rfl, rfl⟩

end Floor

/-- What never changes about a provider. -/
def Provider.identity (p : Provider) : String × String × Nat := (p.name, p.model, p.dimensions)

@[simp] theorem Provider.identity_call (p : Provider) (texts : List String) :
    (p.call texts).1.identity = p.identity := rfl

/-- The stages that a batch of a chain of `n` providers can be at, when a call is tried `attempts` times. -/
def Stage.Sound (n attempts : Nat) : Stage → Prop
  | .permit i | .slot i _ => i < n
  | .call i left | .backoff i left .. => i < n ∧ left < attempts
  | _ => True

namespace Batch

variable {c : PipelineConfig} {t : Task} {f f' : Floor} {b b' : Batch}

/-- How a batch comes to ask for a slot: it takes a free permit, was handed one, or looks again, either since some
slot was given back or since it knows that it gets one. -/
inductive Entrance (t : Task) (f : Floor) (b : Batch) (name : String) : Nat → Floor → Prop where
  | free (i : Nat) : b.stage = .choose i → 0 < f.freePermits →
      Entrance t f b name i { f with freePermits := f.freePermits - 1 }
  | handed (i : Nat) : b.stage = .permit i → t ∈ f.granted →
      Entrance t f b name i { f with granted := f.granted.filter (· != t) }
  | again (i since : Nat) : b.stage = .slot i since →
      (t ∈ f.slotQueue → (f.health.acquire? f.now name).isSome) →
      Entrance t f b name i { f with slotQueue := f.slotQueue.filter (· != t) }

/-- How a call ends that is not tried again. -/
inductive Ending (f : Floor) (b : Batch) (i : Nat) (p : Provider) (r : Except EmbedError (List Vec)) :
    Floor → Batch → Prop where
  | single (result : Except IndexError Embedded) : b.single = true →
      Ending f b i p r f { b with stage := .done result }
  | answer (vectors : List Vec) (store : Store) (e : Embedded) : r = .ok vectors →
      checkVectors f.store p b.texts.length vectors = .ok (store, e) →
      Ending f b i p r { f with store, health := f.health.recordSuccess p.name } { b with stage := .done (.ok e) }
  | refusal (vectors : List Vec) (e : IndexError) : r = .ok vectors →
      checkVectors f.store p b.texts.length vectors = .error e →
      Ending f b i p r f { b with stage := .done (.error e) }
  | failure (health : Registry) (stage : Stage) :
      (∀ vectors, r = .ok vectors → ∃ e, checkVectors f.store p b.texts.length vectors = .error e) →
      f.health.KeepsSlots health →
      (stage = .done (.error (.embed .noProvider)) ∨ i + 1 < f.providers.length ∧
        (stage = .choose (i + 1) ∨ ∃ since wake, stage = .cooldown (i + 1) since wake)) →
      Ending f b i p r { f with health } { b with stage }

/-- The steps of a batch. -/
inductive Move (c : PipelineConfig) (t : Task) (f : Floor) (b : Batch) : Floor → Batch → Prop where
  | lost (i : Nat) : b.stage = .choose i → f.providers[i]? = none →
      Move c t f b f { b with stage := .done (.error (.embed .noProvider)) }
  | pass (i : Nat) (p : Provider) : b.stage = .choose i → f.providers[i]? = some p →
      f.health.isAvailable f.now p.name = false → Move c t f b f (b.next f i)
  | queue (i : Nat) (p : Provider) : b.stage = .choose i → f.providers[i]? = some p → f.freePermits = 0 →
      Move c t f b { f with permitQueue := f.permitQueue ++ [t] } { b with stage := .permit i }
  | take (i : Nat) (p : Provider) (f₁ : Floor) (health : Registry) : Entrance t f b p.name i f₁ →
      f.providers[i]? = some p → f.health.acquire? f.now p.name = some health →
      Move c t f b { f₁ with health } { b with stage := .call i (c.retry.attempts - 1) }
  | wait (i : Nat) (p : Provider) (f₁ : Floor) : Entrance t f b p.name i f₁ → f.providers[i]? = some p →
      f.health.acquire? f.now p.name = none →
      Move c t f b { f₁ with health := f.health.refresh f.now p.name, slotQueue := f₁.slotQueue ++ [t] }
        { b with stage := .slot i f.now }
  | retry (i left wake : Nat) (p : Provider) (e : EmbedError) : b.stage = .call i (left + 1) →
      f.providers[i]? = some p → (p.call b.texts).2 = .error e →
      Move c t f b (f.setProvider i (p.call b.texts).1) { b with stage := .backoff i left f.now wake }
  | finish (i left : Nat) (p : Provider) (g : Floor) (d : Batch) : b.stage = .call i left → f.providers[i]? = some p →
      Ending (((f.setProvider i (p.call b.texts).1).releaseSlot p.name).releasePermit) b i p (p.call b.texts).2
        g d →
      Move c t f b g d
  | resume (i left since wake : Nat) : b.stage = .backoff i left since wake →
      Move c t f b f { b with stage := .call i left }
  | reopen (i since wake : Nat) : b.stage = .cooldown i since wake →
      Move c t f b f { b with stage := .choose i }

theorem next_stage (f : Floor) (b : Batch) (i : Nat) :
    (b.next f i).stage = .done (.error (.embed .noProvider)) ∨
      i + 1 < f.providers.length ∧ (b.next f i).stage = .choose (i + 1) := by
  unfold next
  split
  · rename_i h
    exact .inr ⟨h, rfl⟩
  · exact .inl rfl

theorem book_ending (c : PipelineConfig) (f : Floor) (b : Batch) (i : Nat) (p : Provider) (e : EmbedError)
    {r : Except EmbedError (List Vec)}
    (hr : ∀ vectors, r = .ok vectors → ∃ e, checkVectors f.store p b.texts.length vectors = .error e) :
    Ending f b i p r (b.book c f i p.name e).1 (b.book c f i p.name e).2 := by
  have hn : (b.next f i).stage = .done (.error (.embed .noProvider)) ∨ i + 1 < f.providers.length ∧
      ((b.next f i).stage = .choose (i + 1) ∨ ∃ since wake, (b.next f i).stage = .cooldown (i + 1) since wake) :=
    (next_stage f b i).imp_right fun h => ⟨h.1, .inl h.2⟩
  unfold book
  split
  · have hk := Registry.keepsSlots_recordRateLimit f.health f.now p.name
    split
    · rename_i h
      exact .failure _ _ hr hk (.inr ⟨h.1, .inr ⟨_, _, rfl⟩⟩)
    · exact .failure _ _ hr hk hn
  · exact .failure _ _ hr (Registry.keepsSlots_recordFailure f.health f.now p.name) hn

theorem conclude_ending (c : PipelineConfig) (f : Floor) (b : Batch) (i : Nat) (p : Provider)
    (r : Except EmbedError (List Vec)) :
    Ending f b i p r (b.conclude c f i p r).1 (b.conclude c f i p r).2 := by
  unfold conclude
  split
  · rename_i h
    exact .single _ h
  · split
    · rename_i e
      exact book_ending c f b i p e fun _ h => nomatch h
    · rename_i vectors
      split
      · rename_i e h
        exact book_ending c f b i p e fun _ hv => ⟨_, by cases hv; exact h⟩
      · rename_i e _ h
        exact .refusal vectors _ rfl h
      · rename_i store e h
        exact .answer vectors store e rfl h

theorem enterSlot_move {i : Nat} {p : Provider} {f₁ : Floor} (he : Entrance t f b p.name i f₁)
    (hp : f.providers[i]? = some p) : Move c t f b (b.enterSlot c t f₁ i p.name).1 (b.enterSlot c t f₁ i p.name).2 := by
  have hh : f₁.health = f.health ∧ f₁.now = f.now := by cases he <;> exact ⟨rfl, rfl⟩
  cases ha : f.health.acquire? f.now p.name with
  | some health =>
    have hs : b.enterSlot c t f₁ i p.name = ({ f₁ with health }, { b with stage := .call i (c.retry.attempts - 1) }) := by
      simp only [enterSlot, hh.1, hh.2, ha]
    rw [hs]
    exact .take i p f₁ health he hp ha
  | none =>
    have hs : b.enterSlot c t f₁ i p.name =
        ({ f₁ with health := f.health.refresh f.now p.name, slotQueue := f₁.slotQueue ++ [t] },
          { b with stage := .slot i f.now }) := by
      simp only [enterSlot, hh.1, hh.2, ha]
    rw [hs]
    exact .wait i p f₁ he hp ha

theorem again?_eq_some {policy : RetryPolicy} {attempt left d : Nat} {r : Except EmbedError α}
    (h : policy.again? attempt left r = some d) : ∃ e, r = .error e := by
  cases r with
  | ok _ => cases h
  | error e => exact ⟨e, rfl⟩

theorem slotWake?_eq_some {name : String} {since wake : Nat} (h : slotWake? f name since = some wake)
    (hw : wake ≤ f.now) : (f.health.acquire? f.now name).isSome := by
  obtain ⟨wait, hp, rfl⟩ := Option.map_eq_some_iff.1 h
  exact Registry.acquire?_isSome_of_pollWait? hp hw

theorem move_of_eq {r : Floor × Batch} (h : some r = some (f', b')) (m : Move c t f b r.1 r.2) : Move c t f b f' b' := by
  cases h
  exact m

theorem step_choose_move {i : Nat} (hstage : b.stage = .choose i) (h : b.step c t f = some (f', b')) :
    Move c t f b f' b' := by
  unfold step at h
  simp only [hstage] at h
  cases hp : f.providers[i]? with
  | none =>
    simp only [hp] at h
    cases h
    exact .lost i hstage hp
  | some p =>
    simp only [hp] at h
    split at h
    · rename_i ha
      cases h
      simp only [Bool.and_eq_true, Bool.not_eq_true'] at ha
      exact .pass i p hstage hp ha.2
    · split at h
      · rename_i hfree
        exact move_of_eq h (enterSlot_move (.free i hstage hfree) hp)
      · rename_i hfree
        cases h
        exact .queue i p hstage hp (by omega)

/-- A batch that waits for a slot looks again when it is out of the queue, or when it knows that it gets one. -/
theorem step_slot_move {i since : Nat} {p : Provider} (hstage : b.stage = .slot i since)
    (hp : f.providers[i]? = some p) (h : b.step c t f = some (f', b')) : Move c t f b f' b' := by
  unfold step at h
  simp only [hstage, hp] at h
  cases hw : slotWake? f p.name since with
  | none =>
    simp only [hw, Bool.or_false] at h
    split at h
    · rename_i hg
      refine move_of_eq h (enterSlot_move (.again i since hstage fun hm => ?_) hp)
      simp [hm] at hg
    · cases h
  | some wake =>
    simp only [hw] at h
    split at h
    · rename_i hg
      refine move_of_eq h (enterSlot_move (.again i since hstage fun hm => ?_) hp)
      simp only [List.contains_iff_mem.2 hm, Bool.not_true, Bool.false_or] at hg
      exact slotWake?_eq_some hw (of_decide_eq_true hg)
    · cases h

theorem step_call_move {i left : Nat} {p : Provider} (hstage : b.stage = .call i left)
    (hp : f.providers[i]? = some p) (h : b.step c t f = some (f', b')) : Move c t f b f' b' := by
  unfold step at h
  simp only [hstage, hp] at h
  split at h
  · rename_i left d hd
    cases h
    obtain ⟨e, he⟩ := again?_eq_some hd
    exact .retry i left _ p e hstage hp he
  · exact move_of_eq h (.finish i _ p _ _ hstage hp (conclude_ending ..))

theorem step_move (hs : b.stage.Sound f.providers.length c.retry.attempts) (h : b.step c t f = some (f', b')) :
    Move c t f b f' b' := by
  cases hstage : b.stage with
  | choose i => exact step_choose_move hstage h
  | slot i since =>
    rw [hstage] at hs
    exact step_slot_move hstage (List.getElem?_eq_getElem hs) h
  | call i left =>
    rw [hstage] at hs
    exact step_call_move hstage (List.getElem?_eq_getElem hs.1) h
  | permit i =>
    rw [hstage] at hs
    have hp := List.getElem?_eq_getElem hs
    unfold step at h
    simp only [hstage, hp] at h
    split at h
    · rename_i hg
      exact move_of_eq h (enterSlot_move (.handed i hstage (List.contains_iff_mem.1 hg)) hp)
    · cases h
  | done r =>
    unfold step at h
    simp only [hstage] at h
    cases h
  | backoff i left since wake =>
    unfold step at h
    simp only [hstage] at h
    split at h
    · cases h
      exact .resume i left since wake hstage
    · cases h
  | cooldown i since wake =>
    unfold step at h
    simp only [hstage] at h
    split at h
    · cases h
      exact .reopen i since wake hstage
    · cases h

end Batch

end CodeIndex.Embedding
