import CodeIndex.Health.History
import CodeIndex.Proofs.Embedding.Alone
import Mathlib.Algebra.GroupWithZero.Nat

/-!
The turn of one provider at a batch that is run alone. A provider whose circuit is open is passed over. Any other gives
a slot, at once or when its limits let the batch in, is called and perhaps called again, and what its calls come to
decides how the batch goes on; in between nothing happens but that time passes and limits are brought up to date.
-/

namespace CodeIndex

/-- Whether an event books something for a provider. -/
def Health.Event.books : Health.Event → Bool
  | .failure _ | .rateLimit _ | .success _ | .reset => true
  | .glance _ | .look _ | .advance _ | .acquire .. | .release _ => false

namespace Embedding

open Health

/-- What becomes of a batch at one provider of its chain. -/
inductive Turn where
  /-- The provider's circuit is open. -/
  | passed
  /-- No slot of the provider comes free. -/
  | stuck
  /-- The calls fail, or their answer is none. -/
  | failed (e : EmbedError)
  /-- The store makes no room for the vectors. -/
  | refused (e : IndexError)
  /-- The answer is taken, by a store that has room for it now. -/
  | answered (store : Store) (e : Embedded)

namespace Turn

/-- Whether the next provider gets the batch. -/
def GoesOn : Turn → Prop
  | passed | failed _ => True
  | stuck | refused _ | answered .. => False

/-- Whether the provider is called. -/
def called : Turn → Bool
  | passed | stuck => false
  | failed _ | refused _ | answered .. => true

/-- What is booked for the provider. -/
def booked (name : String) : Turn → List Event
  | failed e => [if e.isTransient then .rateLimit name else .failure name]
  | answered .. => [.success name]
  | passed | stuck | refused _ => []

/-- What the batch comes to if this is its last turn. -/
def result? : Turn → Option (Except IndexError Embedded)
  | passed | failed _ => some (.error (.embed .noProvider))
  | stuck => none
  | refused e => some (.error e)
  | answered _ e => some (.ok e)

end Turn

namespace Provider

/-- The calls for a batch, with those that are tried again. -/
def tried (c : PipelineConfig) (texts : List String) (p : Provider) : RetryPolicy.Tried Provider (List Vec) :=
  c.retry.run (fun p => p.call texts) p

/-- What the calls for a batch come to. -/
def verdict (c : PipelineConfig) (store : Store) (texts : List String) (p : Provider) : Turn :=
  match (p.tried c texts).outcome with
  | .error e => .failed e
  | .ok vectors =>
    match checkVectors store p texts.length vectors with
    | .error (.embed e) => .failed e
    | .error e => .refused e
    | .ok (store, e) => .answered store e

/-- How long the calls for a batch wait for a slot, if one comes free. -/
def wait? (m : Monitor) (p : Provider) : Option Nat := (m.registry.get p.name).pollWait? m.registry.config m.now

/-- The calls for a batch as the registry of health sees them. -/
def calling (c : PipelineConfig) (texts : List String) (wait : Nat) (p : Provider) : List Event :=
  [.advance wait, .look p.name, .advance (p.tried c texts).waits.sum]

end Provider

/-- The pause after a failure that goes on to a further provider, if there is one. -/
def PipelineConfig.pause (c : PipelineConfig) (e : EmbedError) (further : List Provider) : Nat :=
  if e.isTransient = true ∧ further ≠ [] then c.cooldownMs else 0

/-- What the registry of health sees of a turn that fails. -/
def failing (c : PipelineConfig) (texts : List String) (wait : Nat) (p : Provider) (ps : List Provider)
    (e : EmbedError) : List Event :=
  p.calling c texts wait ++ (Turn.failed e).booked p.name ++ [.advance (c.pause e ps)]

namespace Batch

variable {c : PipelineConfig} {t : Task} {f f' : Floor} {b b' : Batch} {o : Bool}

theorem stepAlone_of_step {r : Floor × Batch} (h : b.step c t f = some r) : b.stepAlone c t f = some r := by
  rw [stepAlone, h]

/-- A step that does not just look for a slot once more can be taken off a run. -/
theorem runAlone_of_move {now : Nat} (h : b.stepAlone c ⟨0, 0⟩ f = some (f', b'))
    (hs : b.stage.Sound f.providers.length c.retry.attempts) (m : b.Move c ⟨0, 0⟩ { f with now } f' b')
    (hslot : ∀ i since j later, b.stage = .slot i since → b'.stage ≠ .slot j later) :
    b.runAlone c f = b'.runAlone c f' := by
  have hd : b'.distance f.providers.length c.retry.attempts < b.distance f.providers.length c.retry.attempts :=
    (m.distance_lt_or hs).resolve_right fun ⟨⟨i, since, hb, hb'⟩, _⟩ => hslot i since i _ hb hb'
  unfold runAlone
  rw [drive, h]
  exact if_pos ⟨m.frame.providers_length, hd⟩

theorem runAlone_of_step (h : b.step c ⟨0, 0⟩ f = some (f', b'))
    (hs : b.stage.Sound f.providers.length c.retry.attempts)
    (hslot : ∀ i since j later, b.stage = .slot i since → b'.stage ≠ .slot j later) :
    b.runAlone c f = b'.runAlone c f' :=
  runAlone_of_move (stepAlone_of_step h) hs (step_move hs h) hslot

theorem runAlone_of_choose {texts : List String} {i : Nat}
    (h : step c ⟨0, 0⟩ f ⟨texts, o, .choose i⟩ = some (f', b')) :
    runAlone c f ⟨texts, o, .choose i⟩ = b'.runAlone c f' := runAlone_of_step h trivial nofun

theorem runAlone_of_none (h : b.stepAlone c ⟨0, 0⟩ f = none) : b.runAlone c f = (f, b) := by
  unfold runAlone
  rw [drive, h]

theorem runAlone_done (f : Floor) (texts : List String) (r : Except IndexError Embedded) :
    runAlone c f ⟨texts, o, .done r⟩ = (f, ⟨texts, o, .done r⟩) := runAlone_of_none rfl

/-- Behind the last provider nobody is left to choose. -/
theorem runAlone_lost {i : Nat} (texts : List String) (hi : f.providers.length ≤ i) :
    runAlone c f ⟨texts, false, .choose i⟩ = (f, ⟨texts, false, .done (.error (.embed .noProvider))⟩) := by
  have hp : f.providers[i]? = none := List.getElem?_eq_none hi
  have hs : step c ⟨0, 0⟩ f ⟨texts, false, .choose i⟩ =
      some (f, ⟨texts, false, .done (.error (.embed .noProvider))⟩) := by
    simp only [step, hp]
  rw [runAlone_of_choose hs, runAlone_done]

theorem runAlone_next (f : Floor) (texts : List String) (stage : Stage) (i : Nat) :
    runAlone c f (next f ⟨texts, false, stage⟩ i) = runAlone c f ⟨texts, false, .choose (i + 1)⟩ := by
  unfold next
  by_cases hi : i + 1 < f.providers.length
  · rw [if_pos hi]
  · rw [if_neg hi, runAlone_done, runAlone_lost texts (by omega)]

theorem runAlone_passed {i : Nat} {p : Provider} (texts : List String) (hp : f.providers[i]? = some p)
    (ha : f.health.isAvailable f.now p.name = false) :
    runAlone c f ⟨texts, false, .choose i⟩ = runAlone c f ⟨texts, false, .choose (i + 1)⟩ := by
  have hs : step c ⟨0, 0⟩ f ⟨texts, false, .choose i⟩ = some (f, next f ⟨texts, false, .choose i⟩ i) := by
    simp only [step, hp, ha, Bool.not_false, Bool.and_self, if_true]
  rw [runAlone_of_choose hs, runAlone_next]

theorem stepAlone_backoff (f : Floor) (texts : List String) (i left since wake : Nat) :
    stepAlone c t f ⟨texts, o, .backoff i left since wake⟩ =
      some ({ f with now := max f.now wake }, ⟨texts, o, .call i left⟩) := by
  by_cases hw : wake ≤ f.now
  · rw [Nat.max_eq_left hw]
    exact stepAlone_of_step (if_pos hw)
  · have hs : step c t f ⟨texts, o, .backoff i left since wake⟩ = none := if_neg hw
    rw [stepAlone, hs]
    exact if_pos (Nat.le_max_right ..)

theorem stepAlone_cooldown (f : Floor) (texts : List String) (i since wake : Nat) :
    stepAlone c t f ⟨texts, false, .cooldown i since wake⟩ =
      some ({ f with now := max f.now wake }, ⟨texts, false, .choose i⟩) := by
  by_cases hw : wake ≤ f.now
  · rw [Nat.max_eq_left hw]
    exact stepAlone_of_step (if_pos hw)
  · have hs : step c t f ⟨texts, false, .cooldown i since wake⟩ = none := if_neg hw
    rw [stepAlone, hs]
    exact if_pos (Nat.le_max_right ..)

/-- The floor on which a call ends, with its last try, the slot and the permit given back. -/
def called (f : Floor) (i : Nat) (name : String) (now : Nat) (p : Provider) : Floor :=
  ((({ f with now } : Floor).setProvider i p).releaseSlot name).releasePermit

theorem step_call_last {i left : Nat} {p : Provider} (texts : List String) (hp : f.providers[i]? = some p)
    (hl : left = 0 ∨ c.retry.again? (c.retry.attempts - 1 - left) left (p.call texts).2 = none) :
    step c t f ⟨texts, o, .call i left⟩ =
      some (conclude c (called f i p.name f.now (p.call texts).1) ⟨texts, o, .call i left⟩ i p (p.call texts).2) := by
  simp only [step, hp]
  split
  · rename_i d hd
    rcases hl with hl | hl
    · cases hl
    · rw [hl] at hd
      cases hd
  · rfl

theorem step_call_again {i left d : Nat} {p : Provider} (texts : List String) (hp : f.providers[i]? = some p)
    (hd : c.retry.again? (c.retry.attempts - 1 - (left + 1)) (left + 1) (p.call texts).2 = some d) :
    step c t f ⟨texts, o, .call i (left + 1)⟩ =
      some (f.setProvider i (p.call texts).1, ⟨texts, o, .backoff i left f.now (f.now + d)⟩) := by
  simp only [step, hp, hd]
  rfl

/-- What follows a call depends on nothing of its provider but what never changes. -/
theorem conclude_congr {p q : Provider} (h : q.identity = p.identity) (f : Floor) (texts : List String) (i : Nat)
    (stage stage' : Stage) (r : Except EmbedError (List Vec)) :
    conclude c f ⟨texts, o, stage⟩ i q r = conclude c f ⟨texts, o, stage'⟩ i p r := by
  obtain ⟨name, model, dimensions⟩ := p
  obtain ⟨name', model', dimensions'⟩ := q
  simp only [Provider.identity, Prod.mk.injEq] at h
  obtain ⟨rfl, rfl, rfl⟩ := h
  rfl

theorem runAlone_call_last {i left : Nat} {p : Provider} (texts : List String) (hp : f.providers[i]? = some p)
    (ha : left < c.retry.attempts)
    (hl : left = 0 ∨ c.retry.again? (c.retry.attempts - 1 - left) left (p.call texts).2 = none) :
    let g := conclude c (called f i p.name f.now (p.call texts).1) ⟨texts, o, .call i left⟩ i p (p.call texts).2
    runAlone c f ⟨texts, o, .call i left⟩ = runAlone c g.1 g.2 :=
  runAlone_of_step (step_call_last texts hp hl) ⟨lt_of_provider hp, ha⟩ nofun

/-- A call that is tried once more, after its wait. -/
theorem runAlone_call_again {i left d : Nat} {p : Provider} (texts : List String) (hp : f.providers[i]? = some p)
    (hl : left + 1 < c.retry.attempts)
    (hd : c.retry.again? (c.retry.attempts - 1 - (left + 1)) (left + 1) (p.call texts).2 = some d) :
    runAlone c f ⟨texts, o, .call i (left + 1)⟩ =
      runAlone c { f.setProvider i (p.call texts).1 with now := max f.now (f.now + d) } ⟨texts, o, .call i left⟩ := by
  have hi := lt_of_provider hp
  have hi' : i < (f.setProvider i (p.call texts).1).providers.length := by
    rw [Floor.length_setProvider]
    exact hi
  rw [runAlone_of_step (step_call_again texts hp hd) ⟨hi, hl⟩ nofun]
  exact runAlone_of_move (stepAlone_backoff _ texts i left _ _) ⟨hi', Nat.lt_of_succ_lt hl⟩ (.resume i left _ _ rfl) nofun

/-- A call is tried until no further try is due; `waits` are those before it, backwards. -/
theorem runAlone_call (texts : List String) {i left : Nat} {p : Provider} {waits : List Nat} (hp : f.providers[i]? = some p)
    (hw : waits.length + left + 1 = c.retry.attempts) :
    let r := c.retry.tryFrom (fun p => p.call texts) waits p left
    let g := conclude c (called f i p.name (f.now + r.waits.sum - waits.sum) r.state) ⟨texts, o, .call i left⟩ i p
      r.outcome
    runAlone c f ⟨texts, o, .call i left⟩ = runAlone c g.1 g.2 := by
  induction left generalizing f p waits with
  | zero =>
    simp only [RetryPolicy.tryFrom, List.sum_reverse, Nat.add_sub_cancel]
    exact runAlone_call_last texts hp (by omega) (.inl rfl)
  | succ left ih =>
    have hi := lt_of_provider hp
    have hattempt : c.retry.attempts - 1 - (left + 1) = waits.length := by omega
    cases hd : c.retry.again? waits.length (left + 1) (p.call texts).2 with
    | none =>
      simp only [RetryPolicy.tryFrom, hd, List.sum_reverse, Nat.add_sub_cancel]
      exact runAlone_call_last texts hp (by omega) (.inr (hattempt ▸ hd))
    | some d =>
      simp only [RetryPolicy.tryFrom, hd]
      have hp' : (f.setProvider i (p.call texts).1).providers[i]? = some (p.call texts).1 := by
        rw [Floor.setProvider, List.getElem?_set_self hi]
      have hrest := @ih { f.setProvider i (p.call texts).1 with now := max f.now (f.now + d) } _ (d :: waits) hp'
        (by rw [List.length_cons]; omega)
      refine (runAlone_call_again texts hp (by omega) (hattempt ▸ hd)).trans (hrest.trans ?_)
      dsimp only
      generalize c.retry.tryFrom (fun p => p.call texts) (d :: waits) (p.call texts).1 left = r
      have hcalled : called { f.setProvider i (p.call texts).1 with now := max f.now (f.now + d) } i (p.call texts).1.name
          (max f.now (f.now + d) + r.waits.sum - (d :: waits).sum) r.state =
          called f i p.name (f.now + r.waits.sum - waits.sum) r.state := by
        have hnow : max f.now (f.now + d) + r.waits.sum - (d :: waits).sum = f.now + r.waits.sum - waits.sum := by
          rw [List.sum_cons]
          omega
        rw [hnow]
        simp only [called, Floor.setProvider, List.set_set]
        rfl
      rw [hcalled, conclude_congr (p.identity_call texts) _ texts i _ (.call i (left + 1))]

/-- The calls of a batch that has found a permit and a slot. -/
theorem runAlone_entered (w : World) (texts : List String) {i permits now : Nat} {p : Provider} {health : Registry}
    (hp : w.providers[i]? = some p) (hm : 0 < permits) :
    let r := p.tried c texts
    let g := conclude c
      { w with
        now := now + r.waits.sum, providers := w.providers.set i r.state, health := health.release p.name
        freePermits := permits } ⟨texts, o, .choose i⟩ i p r.outcome
    runAlone c { w with now, health, freePermits := permits - 1 } ⟨texts, o, .call i (c.retry.attempts - 1)⟩ =
      runAlone c g.1 g.2 := by
  have ha := one_le_attempts c.retry
  have hcall := @runAlone_call c { w with now, health, freePermits := permits - 1 } o texts i _ _ [] hp
    (show 0 + (c.retry.attempts - 1) + 1 = c.retry.attempts by omega)
  intro r g
  refine hcall.trans ?_
  have hfloor : called { w with now, health, freePermits := permits - 1 } i p.name (now + r.waits.sum) r.state =
      { w with
        now := now + r.waits.sum, providers := w.providers.set i r.state, health := health.release p.name
        freePermits := permits } := by
    obtain ⟨m, rfl⟩ := Nat.exists_eq_add_one.2 hm
    rfl
  have hg : conclude c (called { w with now, health, freePermits := permits - 1 } i p.name (now + r.waits.sum) r.state)
      ⟨texts, o, .call i (c.retry.attempts - 1)⟩ i p r.outcome = g := by
    rw [hfloor]
    exact conclude_congr rfl _ texts i _ _ _
  rw [← hg]
  rfl

/-- The floor of a batch that waits for a slot. -/
def waiting (w : World) (freePermits : Nat) : Floor := { w with freePermits, slotQueue := [⟨0, 0⟩] }

/-- A batch that waits for a slot and is not told of one stays where it is until its time comes. -/
theorem step_slot (w : World) (texts : List String) {i permits : Nat} {p : Provider} (now : Nat)
    (hp : w.providers[i]? = some p) :
    step c ⟨0, 0⟩ { waiting w permits with now } ⟨texts, o, .slot i w.now⟩ =
      match (w.health.get p.name).pollWait? w.health.config w.now with
      | some wait =>
        if w.now + wait ≤ now then
          some (enterSlot c ⟨0, 0⟩ { w with now, freePermits := permits } ⟨texts, o, .slot i w.now⟩ i p.name)
        else none
      | none => none := by
  have hp' : (waiting w permits).providers[i]? = some p := hp
  have hqueue : (waiting w permits).slotQueue.contains (⟨0, 0⟩ : Task) = true := rfl
  have hleft : (waiting w permits).slotQueue.filter (· != (⟨0, 0⟩ : Task)) = [] := rfl
  have hwake : slotWake? { waiting w permits with now } p.name w.now =
      ((w.health.get p.name).pollWait? w.health.config w.now).map (w.now + ·) := rfl
  cases hw : (w.health.get p.name).pollWait? w.health.config w.now with
  | none =>
    rw [hw] at hwake
    simp only [step, hp', hqueue, hwake, Option.map_none, Bool.not_true, Bool.or_self, Bool.false_eq_true, if_false]
  | some wait =>
    rw [hw] at hwake
    simp only [step, hp', hqueue, hwake, hleft, Option.map_some, Bool.not_true, Bool.false_or, decide_eq_true_eq]
    rfl

theorem stepAlone_slot (w : World) (texts : List String) {i permits wait : Nat} {p : Provider} {health : Registry}
    (hp : w.providers[i]? = some p) (hpos : 0 < wait)
    (hw : (w.health.get p.name).pollWait? w.health.config w.now = some wait)
    (hacq : w.health.acquire? (w.now + wait) p.name = some health) :
    let late : Floor := { waiting w permits with now := w.now + wait }
    let g : Floor × Batch := ({ w with now := w.now + wait, health, freePermits := permits },
      ⟨texts, o, .call i (c.retry.attempts - 1)⟩)
    step c ⟨0, 0⟩ late ⟨texts, o, .slot i w.now⟩ = some g ∧
      stepAlone c ⟨0, 0⟩ (waiting w permits) ⟨texts, o, .slot i w.now⟩ = some g := by
  intro late g
  have hlate : step c ⟨0, 0⟩ late ⟨texts, o, .slot i w.now⟩ = some g := by
    rw [step_slot w texts (w.now + wait) hp, hw]
    dsimp only
    rw [if_pos (Nat.le_refl _), enterSlot]
    simp only [hacq]
    rfl
  have hearly : step c ⟨0, 0⟩ (waiting w permits) ⟨texts, o, .slot i w.now⟩ = none := by
    refine (step_slot w texts w.now hp).trans ?_
    rw [hw]
    exact if_neg (by omega)
  have hwake : wakeAt? (waiting w permits) ⟨texts, o, .slot i w.now⟩ = some (w.now + wait) := by
    have hp' : (waiting w permits).providers[i]? = some p := hp
    simp only [wakeAt?, hp', Option.bind_some, slotWake?]
    exact congrArg _ hw
  refine ⟨hlate, ?_⟩
  have hnow : max w.now (w.now + wait) = w.now + wait := Nat.max_eq_right (Nat.le_add_right ..)
  rw [stepAlone, hearly, hwake, Option.bind_some]
  change step c ⟨0, 0⟩ { waiting w permits with now := max w.now (w.now + wait) } _ = some g
  rw [hnow]
  exact hlate

/-- A batch for which no slot comes free waits forever. -/
theorem runAlone_stuck (w : World) (texts : List String) {i permits : Nat} {p : Provider}
    (hp : w.providers[i]? = some p) (hw : (w.health.get p.name).pollWait? w.health.config w.now = none) :
    runAlone c (waiting w permits) ⟨texts, o, .slot i w.now⟩ =
      (waiting w permits, ⟨texts, o, .slot i w.now⟩) := by
  have hstep : step c ⟨0, 0⟩ (waiting w permits) ⟨texts, o, .slot i w.now⟩ = none := by
    refine (step_slot w texts w.now hp).trans ?_
    rw [hw]
  have hwake : wakeAt? (waiting w permits) ⟨texts, o, .slot i w.now⟩ = none := by
    have hp' : (waiting w permits).providers[i]? = some p := hp
    simp only [wakeAt?, hp', Option.bind_some, slotWake?]
    exact congrArg _ hw
  refine runAlone_of_none ?_
  rw [stepAlone, hstep, hwake, Option.bind_none]

theorem step_choose (w : World) (texts : List String) {i permits : Nat} {p : Provider}
    (hp : w.providers[i]? = some p) (hm : 0 < permits) (ha : w.health.isAvailable w.now p.name = true) :
    step c ⟨0, 0⟩ { w with freePermits := permits } ⟨texts, o, .choose i⟩ =
      some (enterSlot c ⟨0, 0⟩ { w with freePermits := permits - 1 } ⟨texts, o, .choose i⟩ i p.name) := by
  simp only [step, hp, ha, Bool.not_true, Bool.and_false, Bool.false_eq_true, if_false, if_pos hm]

/-- A batch that finds a permit finds a slot as well, at once or when the limits let it in. -/
theorem runAlone_enter (w : World) (texts : List String) {i permits wait : Nat} {p : Provider}
    (hp : w.providers[i]? = some p) (hm : 0 < permits) (ha : w.health.isAvailable w.now p.name = true)
    (hw : (w.health.get p.name).pollWait? w.health.config w.now = some wait) :
    ∃ health : Registry, health.release p.name = w.health.refresh (w.now + wait) p.name ∧
      runAlone c { w with freePermits := permits } ⟨texts, o, .choose i⟩ =
        runAlone c { w with now := w.now + wait, health, freePermits := permits - 1 }
          ⟨texts, o, .call i (c.retry.attempts - 1)⟩ := by
  have hi : i < w.providers.length := (List.getElem?_eq_some_iff.1 hp).1
  have hchoose := step_choose (c := c) (o := o) w texts hp hm ha
  cases hacq : w.health.acquire? w.now p.name with
  | some health =>
    obtain rfl : 0 = wait := Option.some.inj ((Registry.pollWait?_of_acquire? hacq).symm.trans hw)
    rw [enterSlot] at hchoose
    simp only [hacq] at hchoose
    exact ⟨health, Registry.release_of_acquire? hacq, runAlone_of_choose hchoose⟩
  | none =>
    have hpos : ¬ w.now + wait ≤ w.now := fun hle => by
      have hsome := Registry.acquire?_isSome_of_pollWait? hw hle
      rw [hacq] at hsome
      cases hsome
    have hpoll : ((w.health.refresh w.now p.name).get p.name).pollWait? w.health.config w.now = some wait :=
      (Registry.pollWait?_refresh ..).trans hw
    obtain ⟨health, hlater⟩ := Option.isSome_iff_exists.1 (Registry.acquire?_isSome_of_pollWait? hpoll (Nat.le_refl _))
    rw [enterSlot] at hchoose
    simp only [hacq] at hchoose
    refine ⟨health, ?_, ?_⟩
    · rw [Registry.release_of_acquire? hlater, Registry.refresh_refresh _ _ (Nat.le_add_right ..)]
    · obtain ⟨hlate, halone⟩ := stepAlone_slot { w with health := w.health.refresh w.now p.name } texts hp
        (Nat.pos_of_ne_zero fun hz => hpos (Nat.le_of_eq (by omega))) hpoll hlater
      rw [runAlone_of_choose hchoose]
      exact runAlone_of_move halone hi (step_move hi hlate) fun _ _ _ _ _ h => Stage.noConfusion h

theorem runAlone_enter_stuck (w : World) (texts : List String) {i permits : Nat} {p : Provider}
    (hp : w.providers[i]? = some p) (hm : 0 < permits) (ha : w.health.isAvailable w.now p.name = true)
    (hw : (w.health.get p.name).pollWait? w.health.config w.now = none) :
    runAlone c { w with freePermits := permits } ⟨texts, o, .choose i⟩ =
      (waiting { w with health := w.health.refresh w.now p.name } (permits - 1), ⟨texts, o, .slot i w.now⟩) := by
  have hacq : w.health.acquire? w.now p.name = none := by
    by_contra hne
    obtain ⟨health, hh⟩ := Option.ne_none_iff_exists'.1 hne
    rw [Registry.pollWait?_of_acquire? hh] at hw
    cases hw
  have hchoose := step_choose (c := c) (o := o) w texts hp hm ha
  rw [enterSlot] at hchoose
  simp only [hacq] at hchoose
  rw [runAlone_of_choose hchoose]
  exact runAlone_stuck { w with health := w.health.refresh w.now p.name } texts hp
    ((Registry.pollWait?_refresh ..).trans hw)

theorem conclude_verdict (f : Floor) (texts : List String) (i : Nat) (p : Provider) (stage : Stage) :
    conclude c f ⟨texts, false, stage⟩ i p (p.tried c texts).outcome =
      match p.verdict c f.store texts with
      | .failed e => book c f ⟨texts, false, stage⟩ i p.name e
      | .refused e => (f, ⟨texts, false, .done (.error e)⟩)
      | .answered store e =>
        ({ f with store, health := f.health.recordSuccess p.name }, ⟨texts, false, .done (.ok e)⟩)
      | _ => (f, ⟨texts, false, stage⟩) := by
  unfold conclude Provider.verdict
  cases (p.tried c texts).outcome with
  | error e => rfl
  | ok vectors =>
    dsimp only
    cases checkVectors f.store p texts.length vectors with
    | ok r => rfl
    | error e => cases e <;> rfl

/-- A failure is booked once, and the next provider gets the batch, perhaps after a pause. -/
theorem runAlone_book (f : Floor) (texts : List String) (stage : Stage) (i : Nat) (name : String) (e : EmbedError)
    (further : List Provider) (hf : further ≠ [] ↔ i + 1 < f.providers.length) :
    let g := book c f ⟨texts, false, stage⟩ i name e
    let m : Monitor := { now := f.now, registry := f.health }
    let m' := m.run ((Turn.failed e).booked name ++ [.advance (c.pause e further)])
    runAlone c g.1 g.2 = runAlone c { f with now := m'.now, health := m'.registry } ⟨texts, false, .choose (i + 1)⟩ := by
  intro g m m'
  cases he : e.isTransient with
  | false =>
    have hg : g = ({ f with health := f.health.recordFailure f.now name }, next f ⟨texts, false, stage⟩ i) :=
      if_neg (he ▸ nofun)
    have hm : m' = { now := f.now, registry := f.health.recordFailure f.now name } := by
      simp only [m', Turn.booked, PipelineConfig.pause, he]
      rfl
    rw [hg, hm]
    exact runAlone_next _ texts stage i
  | true =>
    let charged : Floor := { f with health := f.health.recordRateLimit f.now name }
    have hg : g = (charged, if i + 1 < f.providers.length ∧ c.cooldownMs ≠ 0 then
        ⟨texts, false, .cooldown (i + 1) f.now (f.now + c.cooldownMs)⟩ else next f ⟨texts, false, stage⟩ i) := if_pos he
    have hm : m' = { now := f.now + if i + 1 < f.providers.length then c.cooldownMs else 0, registry := charged.health } := by
      simp only [m', Turn.booked, PipelineConfig.pause, he, hf, true_and]
      rfl
    rw [hg, hm]
    by_cases hi : i + 1 < f.providers.length ∧ c.cooldownMs ≠ 0
    · rw [if_pos hi, if_pos hi.1]
      have hnow : max charged.now (f.now + c.cooldownMs) = f.now + c.cooldownMs :=
        Nat.max_eq_right (Nat.le_add_right ..)
      refine (runAlone_of_move (stepAlone_cooldown charged texts (i + 1) _ _) trivial (.reopen (i + 1) _ _ rfl)
        nofun).trans ?_
      rw [hnow]
    · have hzero : (if i + 1 < f.providers.length then c.cooldownMs else 0) = 0 := by
        split
        · rename_i h
          exact Decidable.not_not.1 fun hc => hi ⟨h, hc⟩
        · rfl
      rw [if_neg hi, hzero]
      exact runAlone_next charged texts stage i

end Batch

end Embedding

end CodeIndex
