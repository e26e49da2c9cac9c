import CodeIndex.Proofs.Embedding.Move
import Mathlib.Logic.Relation

/-!
The course of a batch, step after step. Every step but one brings it nearer to its end; the exception is a batch
that looks for a slot in vain, which then waits for the next one to be given back. So a batch that goes on as far as
it can comes to rest.
-/

namespace CodeIndex

/-- A store and what it becomes when room for longer vectors is made in it. -/
def Store.Widening (s s' : Store) : Prop := ∃ dimensions, s.widen dimensions = .ok s'

namespace Embedding.Batch

open Health Relation

variable {c : PipelineConfig} {t : Task} {f f' f'' : Floor} {b b' b'' : Batch}

/-- What no step of a batch changes, and the two parts of the floor that steps only add to. -/
structure Frame (f : Floor) (b : Batch) (f' : Floor) (b' : Batch) : Prop where
  texts : b'.texts = b.texts
  single : b'.single = b.single
  now : f'.now = f.now
  providers : f'.providers.map Provider.identity = f.providers.map Provider.identity
  store : ReflTransGen Store.Widening f.store f'.store
  ready : f.ready ⊆ f'.ready

theorem Frame.refl (f : Floor) (b : Batch) : Frame f b f b := ⟨rfl, rfl, rfl, rfl, .refl, fun _ h => h⟩

theorem Frame.trans (h : Frame f b f' b') (k : Frame f' b' f'' b'') : Frame f b f'' b'' :=
  ⟨k.texts.trans h.texts, k.single.trans h.single, k.now.trans h.now, k.providers.trans h.providers,
    h.store.trans k.store, fun _ hm => k.ready (h.ready hm)⟩

theorem Frame.providers_length (h : Frame f b f' b') : f'.providers.length = f.providers.length := by
  have hl := congrArg List.length h.providers
  rwa [List.length_map, List.length_map] at hl

theorem identity_setProvider {i : Nat} {p q : Provider} (hp : f.providers[i]? = some p)
    (hq : q.identity = p.identity) :
    (f.setProvider i q).providers.map Provider.identity = f.providers.map Provider.identity := by
  obtain ⟨hi, rfl⟩ := List.getElem?_eq_some_iff.1 hp
  rw [Floor.setProvider, List.map_set, hq]
  apply List.ext_getElem
  · simp
  · intro k h₁ h₂
    rw [List.getElem_set]
    split
    · rename_i hk
      subst hk
      rw [List.getElem_map]
    · rfl

theorem checkVectors_store {store store' : Store} {p : Provider} {expected : Nat} {vectors : List Vec} {e : Embedded}
    (h : checkVectors store p expected vectors = .ok (store', e)) : ReflTransGen Store.Widening store store' := by
  unfold checkVectors at h
  split at h
  · cases h
  · simp only at h
    split at h
    · cases h
    · split at h
      · cases h
        exact .refl
      · split at h
        · cases h
        · rename_i hw
          cases h
          exact .single ⟨_, hw⟩

theorem Ending.frame {i : Nat} {p : Provider} {r : Except EmbedError (List Vec)} (h : Ending f b i p r f' b') :
    Frame f b f' b' := by
  cases h with
  | single => exact ⟨rfl, rfl, rfl, rfl, .refl, fun _ h => h⟩
  | answer _ _ _ _ hc => exact ⟨rfl, rfl, rfl, rfl, checkVectors_store hc, fun _ h => h⟩
  | refusal => exact ⟨rfl, rfl, rfl, rfl, .refl, fun _ h => h⟩
  | failure => exact ⟨rfl, rfl, rfl, rfl, .refl, fun _ h => h⟩

theorem releaseSlot_frame (f : Floor) (b : Batch) (name : String) : Frame f b (f.releaseSlot name) b := by
  rw [Floor.releaseSlot_eq]
  exact ⟨rfl, rfl, rfl, rfl, .refl, fun _ h => (Floor.mem_ready_releaseSlot name).2 (.inl h)⟩

theorem releasePermit_frame (f : Floor) (b : Batch) : Frame f b f.releasePermit b := by
  have hr := Floor.ready_subset_releasePermit f
  rcases Floor.releasePermit_cases f with ⟨-, he⟩ | ⟨_, _, -, -, he⟩
  · rw [he]
    exact ⟨rfl, rfl, rfl, rfl, .refl, fun _ h => h⟩
  · rw [he] at hr ⊢
    exact ⟨rfl, rfl, rfl, rfl, .refl, hr⟩

theorem Entrance.providers {name : String} {i : Nat} (h : Entrance t f b name i f') : f'.providers = f.providers := by
  cases h <;> rfl

theorem Entrance.frame {name : String} {i : Nat} (h : Entrance t f b name i f') : Frame f b f' b := by
  cases h <;> exact ⟨rfl, rfl, rfl, rfl, .refl, fun _ h => h⟩

/-- The floor on which a call ends: its provider has moved on, and slot and permit are given back. -/
theorem finish_frame {i : Nat} {p : Provider} (hp : f.providers[i]? = some p) (b : Batch) :
    Frame f b (((f.setProvider i (p.call b.texts).1).releaseSlot p.name).releasePermit) b := by
  have hs : Frame f b (f.setProvider i (p.call b.texts).1) b :=
    ⟨rfl, rfl, rfl, identity_setProvider hp (p.identity_call b.texts), .refl, fun _ h => h⟩
  exact hs.trans ((releaseSlot_frame _ b p.name).trans (releasePermit_frame _ b))

theorem Move.frame (m : Move c t f b f' b') : Frame f b f' b' := by
  cases m with
  | lost => exact ⟨rfl, rfl, rfl, rfl, .refl, fun _ h => h⟩
  | pass => exact ⟨rfl, rfl, rfl, rfl, .refl, fun _ h => h⟩
  | queue => exact ⟨rfl, rfl, rfl, rfl, .refl, fun _ h => h⟩
  | take _ _ _ _ he =>
    have hf := he.frame
    exact ⟨rfl, rfl, hf.now, hf.providers, hf.store, hf.ready⟩
  | wait _ _ _ he =>
    have hf := he.frame
    exact ⟨rfl, rfl, hf.now, hf.providers, hf.store, hf.ready⟩
  | retry i _ _ p _ _ hp =>
    exact ⟨rfl, rfl, rfl, identity_setProvider hp (p.identity_call b.texts), .refl, fun _ h => h⟩
  | finish _ _ p _ _ _ hp he => exact (finish_frame hp b).trans he.frame
  | resume => exact ⟨rfl, rfl, rfl, rfl, .refl, fun _ h => h⟩
  | reopen => exact ⟨rfl, rfl, rfl, rfl, .refl, fun _ h => h⟩

/-- A step ends a batch with an answer only where the vectors that a call came to pass the check. -/
theorem Move.answered {e : Embedded} (m : Move c t f b f' b') (hs : b.single = false)
    (he : b'.stage = .done (.ok e)) :
    ∃ (i : Nat) (p : Provider) (vectors : List Vec) (store store' : Store), f.providers[i]? = some p ∧
      (p.call b.texts).2 = .ok vectors ∧ ReflTransGen Store.Widening f.store store ∧
      checkVectors store p b.texts.length vectors = .ok (store', e) := by
  cases m with
  | finish i left p g d hstage hp hend =>
    cases hend with
    | single _ h => exact absurd h (by rw [hs]; exact Bool.false_ne_true)
    | answer vectors store' e' hr hc =>
      cases he
      exact ⟨i, p, vectors, _, store', hp, hr, (finish_frame hp b).store, hc⟩
    | refusal => cases he
    | failure _ stage _ _ hs => rcases hs with rfl | ⟨-, rfl | ⟨_, _, rfl⟩⟩ <;> cases he
  | lost => cases he
  | pass i =>
    rcases next_stage f b i with h | ⟨-, h⟩ <;> rw [h] at he <;> cases he
  | _ => cases he

theorem one_le_attempts (p : RetryPolicy) : 1 ≤ p.attempts := Nat.le_max_left ..

theorem lt_of_provider {p : Provider} {i : Nat} (hp : f.providers[i]? = some p) : i < f.providers.length :=
  (List.getElem?_eq_some_iff.1 hp).1

theorem next_sound (f : Floor) (b : Batch) (i n attempts : Nat) : (b.next f i).stage.Sound n attempts := by
  rcases next_stage f b i with h | ⟨-, h⟩ <;> rw [h] <;> trivial

theorem Ending.sound {i n attempts : Nat} {p : Provider} {r : Except EmbedError (List Vec)}
    (h : Ending f b i p r f' b') : b'.stage.Sound n attempts := by
  cases h with
  | single => trivial
  | answer => trivial
  | refusal => trivial
  | failure _ stage _ _ hstage => rcases hstage with rfl | ⟨-, rfl | ⟨_, _, rfl⟩⟩ <;> trivial

theorem Move.sound (m : Move c t f b f' b') (hs : b.stage.Sound f.providers.length c.retry.attempts) :
    b'.stage.Sound f'.providers.length c.retry.attempts := by
  rw [m.frame.providers_length]
  cases m with
  | lost => trivial
  | pass i => exact next_sound f b i _ _
  | queue i p _ hp => exact lt_of_provider hp
  | take i p _ _ _ hp => exact ⟨lt_of_provider hp, Nat.sub_lt (one_le_attempts _) Nat.one_pos⟩
  | wait i p _ _ hp => exact lt_of_provider hp
  | retry i left _ p _ hstage hp =>
    rw [hstage] at hs
    exact ⟨lt_of_provider hp, Nat.lt_of_succ_lt hs.2⟩
  | finish _ _ _ _ _ _ _ he => exact he.sound
  | resume i left since wake hstage =>
    rw [hstage] at hs
    exact hs
  | reopen => trivial

/-- A batch that looks for a slot once more finds none, and is told of the next that is given back. -/
def Requeues (t : Task) (f : Floor) (b : Batch) (f' : Floor) (b' : Batch) : Prop :=
  (∃ i since, b.stage = .slot i since ∧ b'.stage = .slot i f.now) ∧
    t ∉ f.slotQueue ∧ f'.slotQueue = f.slotQueue ++ [t]

theorem round_next {n i : Nat} (h : i < n) (round : Nat) : (n - i) * round = (n - (i + 1)) * round + round := by
  rw [show n - i = n - (i + 1) + 1 by omega, Nat.succ_mul]

/-- A stage behind provider `i` is farther off than any stage at the providers after it. -/
theorem Ending.distance_lt {i n : Nat} {p : Provider} {r : Except EmbedError (List Vec)}
    (h : Ending f b i p r f' b') (hn : f.providers.length = n) (attempts : Nat) :
    b'.distance n attempts < (n - i) * (2 * attempts + 8) + 1 := by
  cases h with
  | single => simp [distance]
  | answer => simp [distance]
  | refusal => simp [distance]
  | failure _ stage _ _ hstage =>
    rcases hstage with rfl | ⟨hi, rfl | ⟨_, _, rfl⟩⟩
    · simp [distance]
    all_goals
      have := round_next (show i < n by omega) (2 * attempts + 8)
      simp only [distance]
      omega

theorem distance_entered {i left : Nat} {name : String} {f₁ : Floor} (n : Nat) (he : Entrance t f b name i f₁)
    (hl : left < c.retry.attempts) :
    ({ b with stage := .call i left } : Batch).distance n c.retry.attempts < b.distance n c.retry.attempts := by
  cases he with
  | free h | handed h | again _ h =>
    simp only [distance, h]
    omega

theorem Move.distance_lt_or (m : Move c t f b f' b') (hs : b.stage.Sound f.providers.length c.retry.attempts) :
    b'.distance f.providers.length c.retry.attempts < b.distance f.providers.length c.retry.attempts ∨
      Requeues t f b f' b' := by
  cases m with
  | lost i h =>
    left
    simp only [distance, h]
    omega
  | pass i p h hp =>
    left
    have hi := lt_of_provider hp
    have hr := round_next hi (2 * c.retry.attempts + 8)
    rcases next_stage f b i with hn | ⟨-, hn⟩
    · simp only [distance, hn, h]
      omega
    · simp only [distance, hn, h]
      omega
  | queue i p h =>
    left
    simp only [distance, h]
    omega
  | take i p f₁ health he =>
    exact .inl (distance_entered _ he (Nat.sub_lt (one_le_attempts _) Nat.one_pos))
  | wait i p f₁ he _ ha =>
    cases he with
    | free h | handed h =>
      left
      simp only [distance, h]
      omega
    | again since h hm =>
      right
      have hq : t ∉ f.slotQueue := fun hq => by simp [ha] at hm; exact hm hq
      refine ⟨⟨i, since, h, rfl⟩, hq, ?_⟩
      have hf : f.slotQueue.filter (· != t) = f.slotQueue :=
        List.filter_eq_self.2 fun u hu => bne_iff_ne.2 fun he => hq (he ▸ hu)
      simp only [hf]
  | retry i left wake p e h =>
    left
    rw [h] at hs
    have := hs.2
    simp only [distance, h]
    omega
  | finish i left p g d h hp he =>
    left
    have := he.distance_lt (n := f.providers.length) (finish_frame hp b).providers_length c.retry.attempts
    have hd : (f.providers.length - i) * (2 * c.retry.attempts + 8) + 1 ≤
        b.distance f.providers.length c.retry.attempts := by
      simp only [distance, h]
      omega
    omega
  | resume i left since wake h =>
    left
    simp only [distance, h]
    omega
  | reopen i since wake h =>
    left
    simp only [distance, h]
    omega

/-- Steps one after the other. -/
inductive Course (c : PipelineConfig) (t : Task) : Floor → Batch → Floor → Batch → Prop where
  | rest (f : Floor) (b : Batch) : Course c t f b f b
  | move {f f' f'' : Floor} {b b' b'' : Batch} : Move c t f b f' b' → Course c t f' b' f'' b'' →
      Course c t f b f'' b''

theorem Course.frame (h : Course c t f b f' b') : Frame f b f' b' := by
  induction h with
  | rest f b => exact .refl f b
  | move m _ ih => exact m.frame.trans ih

theorem Course.sound (h : Course c t f b f' b') (hs : b.stage.Sound f.providers.length c.retry.attempts) :
    b'.stage.Sound f'.providers.length c.retry.attempts := by
  induction h with
  | rest => exact hs
  | move m _ ih => exact ih (m.sound hs)

/-- A batch at rest is done or waits for something that others do, or for its time. -/
def Resting (t : Task) (f : Floor) (b : Batch) : Prop :=
  match b.stage with
  | .choose _ | .call .. => False
  | .permit _ => t ∉ f.granted
  | .slot .. => t ∈ f.slotQueue
  | .done _ | .backoff .. | .cooldown .. => True

theorem resting_of_step (hs : b.stage.Sound f.providers.length c.retry.attempts) (h : b.step c t f = none) :
    b.Resting t f := by
  unfold step at h
  unfold Resting
  cases hstage : b.stage with
  | done r => trivial
  | choose i =>
    simp only [hstage] at h
    split at h
    · cases h
    · split at h
      · cases h
      · split at h <;> cases h
  | permit i =>
    rw [hstage] at hs
    simp only [hstage, List.getElem?_eq_getElem hs] at h
    split at h
    · cases h
    · rename_i hg
      rwa [List.contains_iff_mem] at hg
  | slot i since =>
    rw [hstage] at hs
    simp only [hstage, List.getElem?_eq_getElem hs] at h
    by_cases hq : t ∈ f.slotQueue
    · exact hq
    · simp [hq] at h
  | call i left =>
    rw [hstage] at hs
    simp only [hstage, List.getElem?_eq_getElem hs.1] at h
    split at h <;> cases h
  | backoff => trivial
  | cooldown => trivial

theorem Requeues.resting (h : Requeues t f b f' b') : b'.Resting t f' := by
  obtain ⟨⟨i, since, -, hb⟩, -, hq⟩ := h
  simp only [Resting, hb, hq]
  exact List.mem_append_right _ (List.mem_singleton.2 rfl)

/-- What a batch has done that went on as far as it could: it came nearer to its end, or is to be told of the next
slot given back, or there was nothing to do. -/
inductive Gain (c : PipelineConfig) (t : Task) (f : Floor) (b : Batch) (f' : Floor) (b' : Batch) : Prop where
  | nearer : b'.distance f.providers.length c.retry.attempts < b.distance f.providers.length c.retry.attempts →
      Gain c t f b f' b'
  | queued : b'.distance f.providers.length c.retry.attempts = b.distance f.providers.length c.retry.attempts →
      t ∉ f.slotQueue → f'.slotQueue = f.slotQueue ++ [t] → Gain c t f b f' b'
  | idle : b.step c t f = none → f' = f → b' = b → Gain c t f b f' b'

theorem Gain.distance_le (h : Gain c t f b f' b') :
    b'.distance f.providers.length c.retry.attempts ≤ b.distance f.providers.length c.retry.attempts := by
  cases h with
  | nearer h => exact Nat.le_of_lt h
  | queued h => exact Nat.le_of_eq h
  | idle _ _ hb => exact Nat.le_of_eq (by rw [hb])

theorem Requeues.gain (h : Requeues t f b f' b') : Gain c t f b f' b' := by
  obtain ⟨⟨i, since, hb, hb'⟩, hq, hf⟩ := h
  exact .queued (by simp only [distance, hb, hb']) hq hf

/-- A batch that goes on as far as it can takes steps, gains by them and comes to rest. -/
theorem advance_spec (hs : b.stage.Sound f.providers.length c.retry.attempts) :
    Course c t f b (b.advance c t f).1 (b.advance c t f).2 ∧
      (b.advance c t f).2.Resting t (b.advance c t f).1 ∧
      Gain c t f b (b.advance c t f).1 (b.advance c t f).2 := by
  unfold advance
  fun_induction drive (fun f b => b.step c t f) c.retry.attempts f b with
  | case1 f b h => exact ⟨.rest f b, resting_of_step hs h, .idle h rfl rfl⟩
  | case2 f b f' b' h hlt ih =>
    have m := step_move hs h
    obtain ⟨course, rest, gain⟩ := ih (m.sound hs)
    refine ⟨.move m course, rest, .nearer ?_⟩
    have hle := gain.distance_le
    rw [hlt.1] at hle
    exact Nat.lt_of_le_of_lt hle hlt.2
  | case3 f b f' b' h hlt =>
    have m := step_move hs h
    have hr : Requeues t f b f' b' :=
      (m.distance_lt_or hs).resolve_left fun hd => hlt ⟨m.frame.providers_length, hd⟩
    exact ⟨.move m (.rest f' b'), hr.resting, hr.gain⟩

end Embedding.Batch

end CodeIndex
