import CodeIndex.Embedding.Run
import CodeIndex.Proofs.Embedding.Balance

/-!
All batches of a file, one after the other as far as each can go. Batches of other files stay at rest, or their file
is looked at next; and a file that is looked at gains by it, unless none of its batches could do anything.
-/

namespace CodeIndex.Embedding

open Health Relation

variable {c : PipelineConfig} {t u : Task} {f f' f'' : Floor} {b b' b'' : Batch}

/-- The floor may hand a permit to others or give them a slot back, but then it has their files looked at. -/
structure Floor.Calls (t : Task) (f f' : Floor) : Prop where
  ready : f.ready ⊆ f'.ready
  granted : ∀ u, u ≠ t → u ∈ f'.granted → u ∈ f.granted ∨ u.file ∈ f'.ready
  slotQueue : ∀ u, u ≠ t → u ∈ f.slotQueue → u ∈ f'.slotQueue ∨ u.file ∈ f'.ready

namespace Floor.Calls

theorem refl (t : Task) (f : Floor) : Calls t f f := ⟨fun _ h => h, fun _ _ h => .inl h, fun _ _ h => .inl h⟩

theorem trans (h : Calls t f f') (k : Calls t f' f'') : Calls t f f'' where
  ready _ hm := k.ready (h.ready hm)
  granted u hu hm := by
    rcases k.granted u hu hm with hm | hm
    · exact (h.granted u hu hm).imp_right fun hr => k.ready hr
    · exact .inr hm
  slotQueue u hu hm := by
    rcases h.slotQueue u hu hm with hm | hm
    · exact k.slotQueue u hu hm
    · exact .inr (k.ready hm)

/-- Changes that touch neither the permits handed on nor the queue for slots. -/
theorem frame (hr : f.ready ⊆ f'.ready) (hg : f'.granted = f.granted) (hs : f'.slotQueue = f.slotQueue) :
    Calls t f f' := ⟨hr, fun _ _ h => .inl (hg ▸ h), fun _ _ h => .inl (hs ▸ h)⟩

theorem resting (h : Calls t f f') (hu : u ≠ t) (hb : b.Resting u f) : b.Resting u f' ∨ u.file ∈ f'.ready := by
  unfold Batch.Resting at hb ⊢
  cases hstage : b.stage with
  | permit i =>
    simp only [hstage] at hb ⊢
    by_cases hm : u ∈ f'.granted
    · exact .inr ((h.granted u hu hm).resolve_left hb)
    · exact .inl hm
  | slot i since =>
    simp only [hstage] at hb ⊢
    exact h.slotQueue u hu hb
  | choose | call =>
    simp only [hstage] at hb
  | done | backoff | cooldown => exact .inl trivial

theorem entrance {name : String} {i : Nat} (h : b.Entrance t f name i f') : Calls t f f' := by
  cases h with
  | free => exact .frame (fun _ h => h) rfl rfl
  | handed => exact ⟨fun _ h => h, fun _ _ h => .inl (List.mem_of_mem_filter h), fun _ _ h => .inl h⟩
  | again =>
    exact ⟨fun _ h => h, fun _ _ h => .inl h, fun u hu h =>
      .inl (List.mem_filter.2 ⟨h, bne_iff_ne.2 hu⟩)⟩

theorem releaseSlot (t : Task) (f : Floor) (name : String) : Calls t f (f.releaseSlot name) := by
  have hq : ∀ u ∈ f.slotQueue, u.file ∈ (f.releaseSlot name).ready := fun u hm =>
    (mem_ready_releaseSlot name).2 (.inr ⟨u, hm, rfl⟩)
  refine ⟨(Batch.releaseSlot_frame f ⟨[], false, .choose 0⟩ name).ready, ?_, fun u _ hm => .inr (hq u hm)⟩
  rw [releaseSlot_eq]
  exact fun u _ hm => .inl hm

theorem releasePermit (t : Task) (f : Floor) : Calls t f f.releasePermit := by
  have hr := f.ready_subset_releasePermit
  rcases f.releasePermit_cases with ⟨-, he⟩ | ⟨v, rest, -, hv, he⟩
  · rw [he]
    exact .frame (fun _ h => h) rfl rfl
  · rw [he] at hr hv ⊢
    refine ⟨hr, fun u _ hm => ?_, fun _ _ h => .inl h⟩
    rcases List.mem_append.1 hm with hm | hm
    · exact .inl hm
    · rw [List.mem_singleton.1 hm]
      exact .inr hv

theorem move (m : b.Move c t f f' b') : Calls t f f' := by
  cases m with
  | lost => exact .refl t f
  | pass => exact .refl t f
  | queue => exact .frame (fun _ h => h) rfl rfl
  | take _ _ _ _ he => exact (entrance he).trans (.frame (fun _ h => h) rfl rfl)
  | wait _ _ _ he =>
    exact (entrance he).trans ⟨fun _ h => h, fun _ _ h => .inl h, fun _ _ h => .inl (List.mem_append_left _ h)⟩
  | retry => exact .frame (fun _ h => h) rfl rfl
  | finish i left p _ _ _ _ he =>
    have hs : Calls t f (f.setProvider i (p.call b.texts).1) := .frame (fun _ h => h) rfl rfl
    have hr := (hs.trans (releaseSlot t _ p.name)).trans (releasePermit t _)
    refine hr.trans ?_
    cases he with
    | single | refusal => exact .refl t _
    | answer | failure => exact .frame (fun _ h => h) rfl rfl
  | resume => exact .refl t f
  | reopen => exact .refl t f

theorem course (k : b.Course c t f f' b') : Calls t f f' := by
  induction k with
  | rest => exact .refl t _
  | move m _ ih => exact (move m).trans ih

end Floor.Calls

/-- Batches of a file with their tasks; the first has number `i`. -/
def members (id : Nat) : Nat → List Batch → List (Task × Batch)
  | _, [] => []
  | i, b :: rest => (⟨id, i⟩, b) :: members id (i + 1) rest

def holds (l : List (Task × Batch)) : List (Task × Hold) := l.map fun e => (e.1, e.2.stage.hold)

theorem file_of_mem_members {id i : Nat} {bs : List Batch} {e : Task × Batch} (h : e ∈ members id i bs) :
    e.1.file = id ∧ i ≤ e.1.batch := by
  induction bs generalizing i with
  | nil => cases h
  | cons b bs ih =>
    rcases List.mem_cons.1 h with rfl | h
    · exact ⟨rfl, Nat.le_refl _⟩
    · obtain ⟨hf, hi⟩ := ih h
      exact ⟨hf, Nat.le_of_succ_le hi⟩

theorem map_snd_members (id i : Nat) (bs : List Batch) : (members id i bs).map (·.2) = bs := by
  induction bs generalizing i with
  | nil => rfl
  | cons b bs ih => rw [members, List.map_cons, ih]

/-- Batches of a file, each advanced in its turn. -/
inductive Sweep (c : PipelineConfig) (id : Nat) : Nat → Floor → List Batch → Floor → List Batch → Prop where
  | nil (i : Nat) (f : Floor) : Sweep c id i f [] f []
  | cons {i : Nat} {f f' f'' : Floor} {b b' : Batch} {bs bs' : List Batch} : b.Course c ⟨id, i⟩ f f' b' →
      b'.Resting ⟨id, i⟩ f' → b.Gain c ⟨id, i⟩ f f' b' → Sweep c id (i + 1) f' bs f'' bs' →
      Sweep c id i f (b :: bs) f'' (b' :: bs')

theorem advanceAll_sweep (id i : Nat) (f : Floor) (bs : List Batch)
    (hs : ∀ b ∈ bs, b.stage.Sound f.providers.length c.retry.attempts) :
    Sweep c id i f bs (advanceAll c id f i bs).1 (advanceAll c id f i bs).2 := by
  induction bs generalizing f i with
  | nil => exact .nil i f
  | cons b bs ih =>
    obtain ⟨course, rest, gain⟩ := Batch.advance_spec (t := ⟨id, i⟩) (hs b List.mem_cons_self)
    refine .cons course rest gain (ih (i + 1) _ fun b hb => ?_)
    rw [course.frame.providers_length]
    exact hs b (List.mem_cons_of_mem _ hb)

@[simp] theorem total_nil : total [] = 0 := rfl

@[simp] theorem total_cons (n : Nat) (ns : List Nat) : total (n :: ns) = n + total ns := rfl

@[simp] theorem total_append (ms ns : List Nat) : total (ms ++ ns) = total ms + total ns := by
  induction ms with
  | nil => simp
  | cons m ms ih => simp [ih, Nat.add_assoc]

/-- How far batches still have to go. -/
def remaining (c : PipelineConfig) (n : Nat) (bs : List Batch) : Nat :=
  total (bs.map (·.distance n c.retry.attempts))

theorem remaining_cons (c : PipelineConfig) (n : Nat) (b : Batch) (bs : List Batch) :
    remaining c n (b :: bs) = b.distance n c.retry.attempts + remaining c n bs := by
  rw [remaining, List.map_cons, total_cons, remaining]

namespace Sweep

variable {id i : Nat} {bs bs' : List Batch}

theorem providers (h : Sweep c id i f bs f' bs') :
    f'.providers.map Provider.identity = f.providers.map Provider.identity := by
  induction h with
  | nil => rfl
  | cons course _ _ _ ih => exact ih.trans course.frame.providers

theorem providers_length (h : Sweep c id i f bs f' bs') : f'.providers.length = f.providers.length := by
  have hl := congrArg List.length h.providers
  rwa [List.length_map, List.length_map] at hl

theorem now (h : Sweep c id i f bs f' bs') : f'.now = f.now := by
  induction h with
  | nil => rfl
  | cons course _ _ _ ih => exact ih.trans course.frame.now

theorem store (h : Sweep c id i f bs f' bs') : ReflTransGen Store.Widening f.store f'.store := by
  induction h with
  | nil => exact .refl
  | cons course _ _ _ ih => exact course.frame.store.trans ih

theorem ready (h : Sweep c id i f bs f' bs') : f.ready ⊆ f'.ready := by
  induction h with
  | nil => exact fun _ hm => hm
  | cons course _ _ _ ih => exact fun _ hm => ih (course.frame.ready hm)

theorem length (h : Sweep c id i f bs f' bs') : bs'.length = bs.length := by
  induction h with
  | nil => rfl
  | cons _ _ _ _ ih => rw [List.length_cons, List.length_cons, ih]

theorem sound (h : Sweep c id i f bs f' bs')
    (hs : ∀ b ∈ bs, b.stage.Sound f.providers.length c.retry.attempts) :
    ∀ b ∈ bs', b.stage.Sound f'.providers.length c.retry.attempts := by
  induction h with
  | nil => exact hs
  | cons course _ _ sweep ih =>
    intro b hb
    rcases List.mem_cons.1 hb with rfl | hb
    · rw [sweep.providers_length]
      exact course.sound (hs _ List.mem_cons_self)
    · refine ih (fun b hb => ?_) b hb
      rw [course.frame.providers_length]
      exact hs b (List.mem_cons_of_mem _ hb)

theorem balanced {limit : Nat} {hs : List (Task × Hold)} (h : Sweep c id i f bs f' bs')
    (hb : f.Balanced limit (holds (members id i bs) ++ hs)) : f'.Balanced limit (holds (members id i bs') ++ hs) := by
  induction h generalizing hs with
  | nil => exact hb
  | @cons i _ _ _ _ b' bs bs' course _ _ _ ih =>
    have h₁ := hb.course course
    have h₂ := ih (h₁.perm List.perm_middle.symm)
    exact h₂.perm List.perm_middle

/-- A batch that takes no part and was at rest stays so, or its file is looked at. -/
theorem resting_apart (h : Sweep c id i f bs f' bs') (hu : ∀ k, i ≤ k → u ≠ ⟨id, k⟩)
    (hb : b.Resting u f ∨ u.file ∈ f.ready) : b.Resting u f' ∨ u.file ∈ f'.ready := by
  induction h with
  | nil => exact hb
  | @cons i _ _ _ _ _ _ _ course _ _ _ ih =>
    refine ih (fun k hk => hu k (Nat.le_of_succ_le hk)) (hb.elim (fun hb => ?_) fun hr => .inr (course.frame.ready hr))
    exact (Floor.Calls.course course).resting (hu i (Nat.le_refl i)) hb

theorem resting (h : Sweep c id i f bs f' bs') :
    ∀ e ∈ members id i bs', e.2.Resting e.1 f' ∨ id ∈ f'.ready := by
  induction h with
  | nil => intro e he; cases he
  | @cons i _ _ _ _ _ _ _ _ rest _ sweep ih =>
    intro e he
    rcases List.mem_cons.1 he with rfl | he
    · refine sweep.resting_apart (u := ⟨id, i⟩) (fun k hk he => ?_) (.inl rest)
      rw [(Task.mk.inj he).2] at hk
      exact Nat.lt_irrefl k hk
    · exact ih e he

theorem remaining_le (h : Sweep c id i f bs f' bs') :
    remaining c f.providers.length bs' ≤ remaining c f.providers.length bs := by
  induction h with
  | nil => exact Nat.le_refl _
  | cons course _ gain _ ih =>
    rw [course.frame.providers_length] at ih
    rw [remaining_cons, remaining_cons]
    exact Nat.add_le_add gain.distance_le ih

/-- Some batch came nearer to its end, or one more is to be told of a slot, or none could do anything. -/
theorem gain (h : Sweep c id i f bs f' bs') :
    remaining c f.providers.length bs' < remaining c f.providers.length bs ∨
      (remaining c f.providers.length bs' = remaining c f.providers.length bs ∧
        f.slotQueue.length < f'.slotQueue.length) ∨
      (f' = f ∧ bs' = bs ∧ ∀ e ∈ members id i bs, e.2.step c e.1 f = none) := by
  induction h with
  | nil => exact .inr (.inr ⟨rfl, rfl, fun e he => nomatch he⟩)
  | cons course _ gain sweep ih =>
    have hle := sweep.remaining_le
    have hn := course.frame.providers_length
    rw [hn] at ih hle
    simp only [remaining_cons]
    cases gain with
    | nearer hlt => exact .inl (by omega)
    | queued heq _ hq =>
      have hl := congrArg List.length hq
      rw [List.length_append, List.length_singleton] at hl
      rcases ih with hlt | ⟨he, hs⟩ | ⟨rfl, rfl, -⟩
      · exact .inl (by omega)
      · exact .inr (.inl ⟨by omega, by omega⟩)
      · exact .inr (.inl ⟨by omega, by omega⟩)
    | idle hstep hf hb =>
      subst hf hb
      rcases ih with hlt | ⟨he, hs⟩ | ⟨rfl, rfl, hnone⟩
      · exact .inl (by omega)
      · exact .inr (.inl ⟨by omega, hs⟩)
      · refine .inr (.inr ⟨rfl, rfl, fun e he => ?_⟩)
        rcases List.mem_cons.1 he with rfl | he
        · exact hstep
        · exact hnone e he

end Sweep

end CodeIndex.Embedding
