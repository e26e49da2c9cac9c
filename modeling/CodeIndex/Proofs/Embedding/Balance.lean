import CodeIndex.Proofs.Embedding.Course
import Mathlib.Data.List.Perm.Subperm
import Mathlib.Data.List.Nodup

/-!
Permits and slots are never lost. What the floor has booked agrees at every moment with what the batches hold: the
permits that are free, handed on or held are as many as there are, a provider has as many calls in flight as there
are batches that keep a slot of it, and queues hold just those who wait.
-/

namespace CodeIndex.Embedding

open Health

/-- What a batch holds or waits for. -/
inductive Hold where
  | nothing
  | awaitsPermit
  /-- It has a permit, and waits for a slot. -/
  | awaitsSlot
  /-- It has a permit, and a slot of the provider with that number. -/
  | slot (provider : Nat)
  deriving DecidableEq

namespace Hold

def hasPermit : Hold → Bool
  | awaitsSlot | slot _ => true
  | _ => false

/-- Whether a slot is held of the provider with that name. -/
def usesSlot (names : List String) (name : String) : Hold → Bool
  | slot i => names[i]? == some name
  | _ => false

/-- The tasks that hold or wait for the same. -/
def those (k : Hold) (hs : List (Task × Hold)) : List Task := (hs.filter (·.2 == k)).map (·.1)

@[simp] theorem those_cons_self (k : Hold) (t : Task) (hs : List (Task × Hold)) :
    those k ((t, k) :: hs) = t :: those k hs := by
  simp [those]

theorem those_cons_of_ne {k k' : Hold} (h : k' ≠ k) (t : Task) (hs : List (Task × Hold)) :
    those k ((t, k') :: hs) = those k hs := by
  simp [those, h]

theorem those_sublist (k : Hold) (hs : List (Task × Hold)) : (those k hs).Sublist (hs.map (·.1)) :=
  (List.filter_sublist).map _

theorem those_perm {k : Hold} {hs hs' : List (Task × Hold)} (h : hs.Perm hs') : (those k hs).Perm (those k hs') :=
  (h.filter _).map _

theorem mem_those {k : Hold} {t : Task} {hs : List (Task × Hold)} : t ∈ those k hs ↔ (t, k) ∈ hs := by
  simp [those]

end Hold

def Stage.hold : Stage → Hold
  | .choose _ | .done _ | .cooldown .. => .nothing
  | .permit _ => .awaitsPermit
  | .slot .. => .awaitsSlot
  | .call i _ | .backoff i .. => .slot i

namespace Floor

open Hold

def names (f : Floor) : List String := f.providers.map (·.name)

/-- The books of the floor agree with what the tasks hold; `limit` is the number of permits. -/
structure Balanced (limit : Nat) (f : Floor) (hs : List (Task × Hold)) : Prop where
  tasks : (hs.map (·.1)).Nodup
  permits : f.freePermits + f.granted.length + hs.countP (·.2.hasPermit) = limit
  /-- Nobody waits for a permit while one is free. -/
  queue : f.permitQueue ≠ [] → f.freePermits = 0
  waits : (f.permitQueue ++ f.granted).Perm (those awaitsPermit hs)
  slots : ∀ name, (f.health.get name).inFlight = hs.countP (·.2.usesSlot f.names name)
  /-- Only those who wait for a slot are to be told of one. -/
  told : f.slotQueue.Subperm (those awaitsSlot hs)
  opened : f.health.Open

namespace Balanced

variable {limit : Nat} {f f' : Floor} {t : Task} {hs hs' : List (Task × Hold)}

theorem perm (h : Balanced limit f hs) (hp : hs.Perm hs') : Balanced limit f hs' where
  tasks := (hp.map _).nodup_iff.1 h.tasks
  permits := by rw [← hp.countP_eq, h.permits]
  queue := h.queue
  waits := h.waits.trans (those_perm hp)
  slots name := by rw [← hp.countP_eq, h.slots]
  told := h.told.trans (those_perm hp).subperm
  opened := h.opened

/-- Changes of the floor that touch neither permits nor slots. -/
theorem frame (h : Balanced limit f hs) (hp : f'.freePermits = f.freePermits) (hq : f'.permitQueue = f.permitQueue)
    (hg : f'.granted = f.granted) (hsq : f'.slotQueue = f.slotQueue) (hn : f'.names = f.names)
    (hh : f.health.KeepsSlots f'.health) : Balanced limit f' hs where
  tasks := h.tasks
  permits := by rw [hp, hg, h.permits]
  queue := by rw [hp, hq]; exact h.queue
  waits := by rw [hq, hg]; exact h.waits
  slots name := by rw [hh.inFlight, hn, h.slots]
  told := by rw [hsq]; exact h.told
  opened := hh.opened h.opened

/-- A task at the head is at no other place. -/
theorem not_mem_those {k k' : Hold} (h : Balanced limit f ((t, k') :: hs)) : t ∉ those k hs := fun hm =>
  (List.nodup_cons.1 h.tasks).1 ((those_sublist k hs).subset hm)

theorem filter_those {k k' : Hold} (h : Balanced limit f ((t, k') :: hs)) :
    (those k hs).filter (· != t) = those k hs :=
  List.filter_eq_self.2 fun _ hu => bne_iff_ne.2 fun he => h.not_mem_those (he ▸ hu)

theorem not_mem_slotQueue {k : Hold} (h : Balanced limit f ((t, k) :: hs)) (hk : k ≠ awaitsSlot) :
    t ∉ f.slotQueue := fun hm =>
  h.not_mem_those (k := awaitsSlot) (those_cons_of_ne hk t hs ▸ h.told.subset hm)

theorem dismiss (h : Balanced limit f ((t, nothing) :: hs)) : Balanced limit f hs where
  tasks := (List.nodup_cons.1 h.tasks).2
  permits := by
    have hp := h.permits
    rwa [List.countP_cons_of_neg (by simp [hasPermit])] at hp
  queue := h.queue
  waits := h.waits
  slots name := by
    have hs := h.slots name
    rwa [List.countP_cons_of_neg (by simp [usesSlot])] at hs
  told := h.told
  opened := h.opened

theorem enlist (h : Balanced limit f hs) (ht : t ∉ hs.map (·.1)) : Balanced limit f ((t, nothing) :: hs) where
  tasks := List.nodup_cons.2 ⟨ht, h.tasks⟩
  permits := by rw [List.countP_cons_of_neg (by simp [hasPermit]), h.permits]
  queue := h.queue
  waits := h.waits
  slots name := by rw [List.countP_cons_of_neg (by simp [usesSlot]), h.slots]
  told := h.told
  opened := h.opened

theorem joinQueue (h : Balanced limit f ((t, nothing) :: hs)) (hf : f.freePermits = 0) :
    Balanced limit { f with permitQueue := f.permitQueue ++ [t] } ((t, awaitsPermit) :: hs) where
  tasks := h.tasks
  permits := h.permits
  queue _ := hf
  waits := by
    have hw := h.waits
    rw [those_cons_of_ne (by decide)] at hw
    rw [those_cons_self]
    refine List.Perm.trans ?_ (hw.cons t)
    rw [List.append_assoc]
    exact List.perm_middle
  slots := h.slots
  told := h.told
  opened := h.opened

theorem takePermit (h : Balanced limit f ((t, nothing) :: hs)) (hf : 0 < f.freePermits) :
    Balanced limit { f with freePermits := f.freePermits - 1 } ((t, awaitsSlot) :: hs) where
  tasks := h.tasks
  permits := by
    have hp := h.permits
    simp only [List.countP_cons, hasPermit] at hp ⊢
    simp only [if_true, Bool.false_eq_true, if_false] at hp ⊢
    omega
  queue hq := by
    have := h.queue hq
    omega
  waits := h.waits
  slots := h.slots
  told := by
    have ht := h.told
    rw [those_cons_of_ne (by decide)] at ht
    rw [those_cons_self]
    exact ht.trans (List.sublist_cons_self t _).subperm
  opened := h.opened

theorem takeGranted (h : Balanced limit f ((t, awaitsPermit) :: hs)) (hg : t ∈ f.granted) :
    Balanced limit { f with granted := f.granted.filter (· != t) } ((t, awaitsSlot) :: hs) := by
  have hw := h.waits
  rw [those_cons_self] at hw
  have hnd : (f.permitQueue ++ f.granted).Nodup :=
    hw.nodup_iff.2 (those_cons_self awaitsPermit t hs ▸ (those_sublist _ _).nodup h.tasks)
  obtain ⟨-, hgn, hdis⟩ := List.nodup_append.1 hnd
  have hq : f.permitQueue.filter (· != t) = f.permitQueue :=
    List.filter_eq_self.2 fun u hu => bne_iff_ne.2 fun he => hdis u hu t hg he
  have hl : (f.granted.filter (· != t)).length + 1 = f.granted.length := by
    rw [← hgn.erase_eq_filter, List.length_erase_of_mem hg]
    have := List.length_pos_of_mem hg
    omega
  refine ⟨h.tasks, ?_, h.queue, ?_, h.slots, ?_, h.opened⟩
  · have hp := h.permits
    simp only [List.countP_cons, hasPermit] at hp ⊢
    simp only [if_true, Bool.false_eq_true, if_false] at hp ⊢
    omega
  · have hf := hw.filter (· != t)
    rw [List.filter_append, hq, List.filter_cons_of_neg (by simp), h.filter_those] at hf
    rwa [those_cons_of_ne (by decide)]
  · have ht := h.told
    rw [those_cons_of_ne (by decide)] at ht
    rw [those_cons_self]
    exact ht.trans (List.sublist_cons_self t _).subperm

/-- One who looks for a slot by itself is told of none. -/
theorem leaveSlotQueue (h : Balanced limit f ((t, awaitsSlot) :: hs)) :
    Balanced limit { f with slotQueue := f.slotQueue.filter (· != t) } ((t, awaitsSlot) :: hs) :=
  ⟨h.tasks, h.permits, h.queue, h.waits, h.slots, List.filter_sublist.subperm.trans h.told, h.opened⟩

/-- A queue that leaves out one who waits holds only others. -/
theorem told_others (h : Balanced limit f ((t, awaitsSlot) :: hs)) (ht : t ∉ f.slotQueue) :
    f.slotQueue.Subperm (those awaitsSlot hs) := by
  have hf : f.slotQueue.filter (· != t) = f.slotQueue :=
    List.filter_eq_self.2 fun u hu => bne_iff_ne.2 fun he => ht (he ▸ hu)
  have hs := h.told.filter (· != t)
  rwa [those_cons_self, hf, List.filter_cons_of_neg (by simp), h.filter_those] at hs

theorem joinSlotQueue (h : Balanced limit f ((t, awaitsSlot) :: hs)) (ht : t ∉ f.slotQueue) :
    Balanced limit { f with slotQueue := f.slotQueue ++ [t] } ((t, awaitsSlot) :: hs) := by
  refine ⟨h.tasks, h.permits, h.queue, h.waits, h.slots, ?_, h.opened⟩
  rw [those_cons_self]
  refine List.Subperm.trans (List.Perm.subperm ?_) ((List.subperm_cons t).2 (h.told_others ht))
  exact List.perm_append_singleton t f.slotQueue

theorem acquire {i : Nat} {p : Provider} {health : Registry} (h : Balanced limit f ((t, awaitsSlot) :: hs))
    (ht : t ∉ f.slotQueue) (hp : f.providers[i]? = some p) (ha : f.health.acquire? f.now p.name = some health) :
    Balanced limit { f with health } ((t, slot i) :: hs) := by
  obtain ⟨-, hopen, hself, hother⟩ := Registry.acquire?_eq_some ha
  have hn : f.names[i]? = some p.name := by simp [names, hp]
  refine ⟨h.tasks, h.permits, h.queue, h.waits, fun name => ?_, ?_, hopen h.opened⟩
  · have hs := h.slots name
    have he : names { f with health } = f.names := rfl
    simp only [List.countP_cons, usesSlot, Bool.false_eq_true, if_false] at hs
    simp only [List.countP_cons, usesSlot, he, hn, beq_iff_eq, Option.some.injEq]
    by_cases hname : p.name = name
    · subst hname
      rw [if_pos rfl, hself, hs]
    · rw [if_neg hname, hother name (Ne.symm hname), hs]
  · rw [those_cons_of_ne (by simp)]
    exact h.told_others ht

theorem releaseSlot {i : Nat} {p : Provider} (h : Balanced limit f ((t, slot i) :: hs))
    (hp : f.providers[i]? = some p) : Balanced limit (f.releaseSlot p.name) ((t, awaitsSlot) :: hs) := by
  have hn : f.names[i]? = some p.name := by simp [names, hp]
  rw [Floor.releaseSlot_eq]
  refine ⟨h.tasks, h.permits, h.queue, h.waits, fun name => ?_, List.nil_subperm,
    Registry.open_release h.opened p.name⟩
  have hs := h.slots name
  simp only [List.countP_cons, usesSlot, hn, beq_iff_eq, Option.some.injEq] at hs
  simp only [List.countP_cons, usesSlot, Bool.false_eq_true, if_false]
  have he : names { f with health := f.health.release p.name, slotQueue := [],
                           ready := (f.releaseSlot p.name).ready } = f.names := rfl
  rw [Registry.release_inFlight, hs, he]
  by_cases hname : p.name = name
  · rw [if_pos hname, if_pos hname.symm]
    omega
  · rw [if_neg hname, if_neg (Ne.symm hname)]
    omega

theorem releasePermit (h : Balanced limit f ((t, awaitsSlot) :: hs)) (ht : t ∉ f.slotQueue) :
    Balanced limit f.releasePermit ((t, nothing) :: hs) := by
  have hp := h.permits
  have htold : f.slotQueue.Subperm (those awaitsSlot ((t, nothing) :: hs)) := by
    rw [those_cons_of_ne (by decide)]
    exact h.told_others ht
  simp only [List.countP_cons, hasPermit, if_true] at hp
  rcases f.releasePermit_cases with ⟨hq, he⟩ | ⟨u, rest, hq, -, he⟩
  · rw [he]
    refine ⟨h.tasks, ?_, fun hne => absurd hq hne, h.waits, h.slots, htold, h.opened⟩
    simp only [List.countP_cons, hasPermit, Bool.false_eq_true, if_false]
    omega
  · have hw := h.waits
    have hz := h.queue (by simp [hq])
    rw [he]
    refine ⟨h.tasks, ?_, fun _ => hz, ?_, h.slots, htold, h.opened⟩
    · simp only [List.countP_cons, hasPermit, Bool.false_eq_true, if_false, List.length_append, List.length_singleton]
      omega
    · rw [hq] at hw
      refine List.Perm.trans ?_ hw
      rw [← List.append_assoc]
      exact List.perm_append_singleton u _

theorem names_eq (h : f'.providers.map Provider.identity = f.providers.map Provider.identity) :
    f'.names = f.names := by
  have hn : ∀ g : Floor, g.names = (g.providers.map Provider.identity).map Prod.fst := fun g => by
    rw [List.map_map]
    rfl
  rw [hn, hn, h]

theorem entrance {b : Batch} {name : String} {i : Nat} (h : Balanced limit f ((t, b.stage.hold) :: hs))
    (he : b.Entrance t f name i f') : Balanced limit f' ((t, awaitsSlot) :: hs) ∧ t ∉ f'.slotQueue := by
  cases he with
  | free hb hp =>
    rw [hb] at h
    exact ⟨h.takePermit hp, h.not_mem_slotQueue (by simp [Stage.hold])⟩
  | handed hb hg =>
    rw [hb] at h
    exact ⟨h.takeGranted hg, h.not_mem_slotQueue (by simp [Stage.hold])⟩
  | again since hb =>
    rw [hb] at h
    exact ⟨h.leaveSlotQueue, fun hm => by simp at hm⟩

theorem ending {b b' : Batch} {i : Nat} {p : Provider} {r : Except EmbedError (List Vec)}
    (h : Balanced limit f ((t, nothing) :: hs)) (he : b.Ending f i p r f' b') :
    Balanced limit f' ((t, b'.stage.hold) :: hs) := by
  cases he with
  | single => exact h
  | answer => exact h.frame rfl rfl rfl rfl rfl (Registry.keepsSlots_recordSuccess _ _)
  | refusal => exact h
  | failure health stage _ hk hstage =>
    have hh : stage.hold = nothing := by rcases hstage with rfl | ⟨-, rfl | ⟨_, _, rfl⟩⟩ <;> rfl
    simp only [hh]
    exact h.frame rfl rfl rfl rfl rfl hk

/-- No step of a batch loses a permit or a slot. -/
theorem move {c : PipelineConfig} {b b' : Batch} (h : Balanced limit f ((t, b.stage.hold) :: hs))
    (m : b.Move c t f f' b') : Balanced limit f' ((t, b'.stage.hold) :: hs) := by
  cases m with
  | lost i hb =>
    rw [hb] at h
    exact h
  | pass i p hb =>
    rw [hb] at h
    rcases Batch.next_stage f b i with hn | ⟨-, hn⟩ <;> rw [hn] <;> exact h
  | queue i p hb _ hf =>
    rw [hb] at h
    exact h.joinQueue hf
  | take i p f₁ health he hp ha =>
    have hf := he.frame
    obtain ⟨h₁, ht⟩ := h.entrance he
    have hh : f₁.health = f.health ∧ f₁.providers = f.providers := by cases he <;> exact ⟨rfl, rfl⟩
    exact h₁.acquire ht (hh.2 ▸ hp) (by rw [hh.1, hf.now]; exact ha)
  | wait i p f₁ he =>
    obtain ⟨h₁, ht⟩ := h.entrance he
    have hh : f₁.health = f.health := by cases he <;> rfl
    exact (h₁.joinSlotQueue ht).frame rfl rfl rfl rfl rfl (hh ▸ Registry.keepsSlots_refresh _ _ _)
  | retry i left wake p e hb hp =>
    rw [hb] at h
    exact h.frame rfl rfl rfl rfl (names_eq (Batch.identity_setProvider hp (p.identity_call b.texts)))
      (.refl _)
  | finish i left p g d hb hp he =>
    rw [hb] at h
    have hid := Batch.identity_setProvider hp (p.identity_call b.texts)
    have hi := (List.getElem?_eq_some_iff.1 hp).1
    have hmoved : (f.setProvider i (p.call b.texts).1).providers[i]? = some (p.call b.texts).1 := by
      simp [Floor.setProvider, hi]
    have h₁ : Balanced limit (f.setProvider i (p.call b.texts).1) ((t, slot i) :: hs) :=
      h.frame rfl rfl rfl rfl (names_eq hid) (.refl _)
    have h₂ := h₁.releaseSlot hmoved
    exact (h₂.releasePermit (by rw [Floor.releaseSlot_eq]; exact List.not_mem_nil)).ending he
  | resume i left since wake hb =>
    rw [hb] at h
    exact h
  | reopen i since wake hb =>
    rw [hb] at h
    exact h

theorem course {c : PipelineConfig} {b b' : Batch} (h : Balanced limit f ((t, b.stage.hold) :: hs))
    (k : b.Course c t f f' b') : Balanced limit f' ((t, b'.stage.hold) :: hs) := by
  induction k with
  | rest => exact h
  | move m _ ih => exact ih (h.move m)

end Balanced

end Floor

end CodeIndex.Embedding
