import CodeIndex.Proofs.Embedding.Turn

/-!
A chain of providers that is asked for a batch, as seen from outside. Each provider in turn is passed over if its
circuit is open, and is called otherwise; the first whose answer is taken ends the course, and so does an answer that
the store has no room for. All else goes on to the next provider, after it was booked once.
-/

namespace CodeIndex.Embedding

open Health

/-- A chain that is asked for a batch: the turns of its providers, and what the registry of health sees of them. -/
inductive Asked (c : PipelineConfig) (store : Store) (texts : List String) :
    Monitor → List Provider → List Turn → List Event → Prop where
  | exhausted (m : Monitor) : Asked c store texts m [] [] []
  | passed {m : Monitor} {p : Provider} {ps : List Provider} {turns : List Turn} {events : List Event} :
      m.registry.isAvailable m.now p.name = false → Asked c store texts m ps turns events →
      Asked c store texts m (p :: ps) (.passed :: turns) events
  | failed {m : Monitor} {p : Provider} {ps : List Provider} {turns : List Turn} {events : List Event}
      (wait : Nat) (e : EmbedError) :
      m.registry.isAvailable m.now p.name = true → p.wait? m = some wait → p.verdict c store texts = .failed e →
      Asked c store texts (m.run (failing c texts wait p ps e)) ps turns events →
      Asked c store texts m (p :: ps) (.failed e :: turns) (failing c texts wait p ps e ++ events)
  | ended {m : Monitor} {p : Provider} {ps : List Provider} (wait : Nat) (turn : Turn) :
      m.registry.isAvailable m.now p.name = true → p.wait? m = some wait → p.verdict c store texts = turn →
      ¬ turn.GoesOn →
      Asked c store texts m (p :: ps) [turn] (p.calling c texts wait ++ turn.booked p.name)
  | stuck {m : Monitor} {p : Provider} {ps : List Provider} :
      m.registry.isAvailable m.now p.name = true → p.wait? m = none →
      Asked c store texts m (p :: ps) [.stuck] [.look p.name]

/-- The registry of health of a world, with nothing but time to it. -/
def World.monitor (w : World) : Monitor := { now := w.now, registry := w.health }

/-- What the turns leave of their providers: those called have given the replies of their calls. -/
def spent (c : PipelineConfig) (texts : List String) : List Provider → List Turn → List Provider
  | p :: ps, t :: turns => (if t.called then (p.tried c texts).state else p) :: spent c texts ps turns
  | ps, _ => ps

/-- The turn that settles what a batch comes to: the last one, and a failure if there is none. -/
def settling (turns : List Turn) : Turn := turns.getLast?.getD .passed

/-- What the turns leave of the store. -/
def Turn.store (store : Store) : Turn → Store
  | answered store _ => store
  | _ => store

theorem settling_cons_cons (t u : Turn) (turns : List Turn) : settling (t :: u :: turns) = settling (u :: turns) := by
  rw [settling, List.getLast?_cons_cons, settling]

/-- A turn that goes on leaves everything to those after it. -/
theorem settling_cons {t : Turn} (h : t.GoesOn) (turns : List Turn) (store : Store) :
    (settling (t :: turns)).result? = (settling turns).result? ∧
      (settling (t :: turns)).store store = (settling turns).store store := by
  cases turns with
  | nil => cases t <;> first | exact h.elim | exact ⟨rfl, rfl⟩
  | cons u turns =>
    rw [settling_cons_cons]
    exact ⟨rfl, rfl⟩

theorem called_verdict (c : PipelineConfig) (store : Store) (texts : List String) (p : Provider) :
    (p.verdict c store texts).called = true := by
  unfold Provider.verdict
  cases (p.tried c texts).outcome with
  | error e => rfl
  | ok vectors =>
    dsimp only
    cases checkVectors store p texts.length vectors with
    | ok r => rfl
    | error e => cases e <;> rfl

/-- What a chain leaves of a world once some of its providers have had their turns. -/
def World.after (w : World) (c : PipelineConfig) (texts : List String) (done ps : List Provider) (turns : List Turn)
    (events : List Event) : World where
  now := (w.monitor.run events).now
  providers := done ++ spent c texts ps turns
  health := (w.monitor.run events).registry
  store := (settling turns).store w.store

theorem getElem?_chain (done ps : List Provider) (p : Provider) : (done ++ p :: ps)[done.length]? = some p := by
  rw [List.getElem?_append_right (Nat.le_refl _), Nat.sub_self, List.getElem?_cons_zero]

theorem set_chain (done ps : List Provider) (p q : Provider) :
    (done ++ p :: ps).set done.length q = done ++ [q] ++ ps := by
  rw [List.set_append_right _ _ (Nat.le_refl _), Nat.sub_self, List.set_cons_zero, List.append_assoc, List.singleton_append]

/-- A provider that has a slot is called, be it one of a chain or the only one: what follows depends on what the calls
come to. -/
theorem runAlone_called (c : PipelineConfig) (w : World) (texts : List String) (o : Bool) {i permits wait : Nat}
    {p : Provider} (hp : w.providers[i]? = some p) (hm : 0 < permits)
    (ha : w.health.isAvailable w.now p.name = true) (hw : p.wait? w.monitor = some wait) :
    let m := w.monitor.run (p.calling c texts wait)
    let g := Batch.conclude c
      { w with
        now := m.now, health := m.registry, providers := w.providers.set i (p.tried c texts).state
        freePermits := permits } ⟨texts, o, .choose i⟩ i p (p.tried c texts).outcome
    Batch.runAlone c { w with freePermits := permits } ⟨texts, o, .choose i⟩ = Batch.runAlone c g.1 g.2 := by
  obtain ⟨health, hrelease, henter⟩ := Batch.runAlone_enter (c := c) (o := o) w texts hp hm ha hw
  refine henter.trans ((Batch.runAlone_entered w texts hp hm).trans ?_)
  rw [hrelease]
  rfl

/-- A turn at which the provider is called. -/
theorem runAlone_turn (c : PipelineConfig) (w : World) (texts : List String) (done ps : List Provider) {p : Provider}
    {permits wait : Nat} (hm : 0 < permits) (ha : w.health.isAvailable w.now p.name = true)
    (hw : p.wait? w.monitor = some wait) :
    let m := w.monitor.run (p.calling c texts wait)
    let g := Batch.conclude c
      { w with
        now := m.now, health := m.registry, providers := done ++ [(p.tried c texts).state] ++ ps
        freePermits := permits } ⟨texts, false, .choose done.length⟩ done.length p (p.tried c texts).outcome
    Batch.runAlone c { w with providers := done ++ p :: ps, freePermits := permits }
      ⟨texts, false, .choose done.length⟩ = Batch.runAlone c g.1 g.2 := by
  have hcalled := runAlone_called c { w with providers := done ++ p :: ps } texts false (getElem?_chain done ps p) hm ha hw
  dsimp only at hcalled
  rw [set_chain] at hcalled
  exact hcalled

/-- A world whose clock and health are those of a monitor. -/
def World.at (w : World) (m : Monitor) : World := { w with now := m.now, health := m.registry }

/-- A turn that fails leaves the batch to the next provider. -/
theorem runAlone_failed (c : PipelineConfig) (w : World) (texts : List String) (done ps : List Provider) {p : Provider}
    {permits wait : Nat} {e : EmbedError} (hm : 0 < permits) (ha : w.health.isAvailable w.now p.name = true)
    (hw : p.wait? w.monitor = some wait) (hv : p.verdict c w.store texts = .failed e) :
    Batch.runAlone c { w with providers := done ++ p :: ps, freePermits := permits }
        ⟨texts, false, .choose done.length⟩ =
      Batch.runAlone c
        { w.at (w.monitor.run (failing c texts wait p ps e)) with
          providers := done ++ [(p.tried c texts).state] ++ ps, freePermits := permits }
        ⟨texts, false, .choose (done.length + 1)⟩ := by
  have hturn := runAlone_turn c w texts done ps hm ha hw
  dsimp only at hturn
  rw [Batch.conclude_verdict] at hturn
  dsimp only at hturn
  rw [hv] at hturn
  refine hturn.trans (Batch.runAlone_book _ texts _ done.length p.name e ps ?_)
  simp only [List.length_append, List.length_singleton, ← List.length_pos_iff]
  omega

theorem monitor_at_failing (c : PipelineConfig) (w : World) (texts : List String) (wait : Nat) (p : Provider)
    (ps : List Provider) (e : EmbedError) :
    (w.at (w.monitor.run (failing c texts wait p ps e))).monitor = w.monitor.run (failing c texts wait p ps e) := by
  have hbooked : (Turn.failed e).booked p.name = [.rateLimit p.name] ∨
      (Turn.failed e).booked p.name = [.failure p.name] := by
    rw [Turn.booked]
    split
    · exact .inl rfl
    · exact .inr rfl
  unfold failing
  rcases hbooked with hb | hb <;> rw [hb] <;> rfl

theorem spent_nil (c : PipelineConfig) (texts : List String) (ps : List Provider) : spent c texts ps [] = ps := by
  cases ps <;> rfl

/-- What a last turn leaves. -/
theorem World.after_last (w : World) (c : PipelineConfig) (texts : List String) (done ps : List Provider) (p : Provider)
    (t : Turn) (events : List Event) :
    w.after c texts done (p :: ps) [t] events =
      { w.at (w.monitor.run events) with
        providers := done ++ [if t.called then (p.tried c texts).state else p] ++ ps, store := t.store w.store } := by
  unfold after spent
  rw [spent_nil, List.append_assoc]
  rfl

/-- What is left after a turn that goes on. -/
theorem World.after_cons (w : World) (c : PipelineConfig) (texts : List String) (done ps : List Provider) (p : Provider)
    {t : Turn} (ht : t.GoesOn) (turns : List Turn) (before events : List Event)
    (hm : (w.at (w.monitor.run before)).monitor = w.monitor.run before) :
    (w.at (w.monitor.run before)).after c texts (done ++ [if t.called then (p.tried c texts).state else p]) ps turns
      events = w.after c texts done (p :: ps) (t :: turns) (before ++ events) := by
  have hstore : (w.at (w.monitor.run before)).store = w.store := rfl
  unfold after
  rw [hm, hstore, Monitor.run, Monitor.run, ← List.foldl_append, (settling_cons ht turns w.store).2, spent,
    List.append_assoc, List.singleton_append]
  rfl

/-- A batch alone takes its turns through the rest of the chain. -/
theorem runAlone_asked (c : PipelineConfig) (texts : List String) {permits : Nat} (hm : 0 < permits)
    (ps : List Provider) (w : World) (done : List Provider) :
    ∃ turns events, Asked c w.store texts w.monitor ps turns events ∧
      ∃ f b, Batch.runAlone c { w with providers := done ++ ps, freePermits := permits }
          ⟨texts, false, .choose done.length⟩ = (f, b) ∧
        f.toWorld = w.after c texts done ps turns events ∧ b.result? = (settling turns).result? := by
  induction ps generalizing w done with
  | nil => exact ⟨[], [], .exhausted _, _, _, Batch.runAlone_lost texts (by simp), rfl, rfl⟩
  | cons p ps ih =>
    cases ha : w.health.isAvailable w.now p.name with
    | false =>
      obtain ⟨turns, events, hasked, f, b, hrun, hworld, hresult⟩ := ih w (done ++ [p])
      rw [List.length_append, List.append_assoc] at hrun
      refine ⟨.passed :: turns, events, .passed ha hasked, f, b, ?_, ?_, ?_⟩
      · have hpassed := Batch.runAlone_passed (c := c)
          (f := { w with providers := done ++ p :: ps, freePermits := permits }) texts (getElem?_chain done ps p) ha
        exact hpassed.trans hrun
      · rw [hworld]
        exact w.after_cons c texts done ps p (t := .passed) trivial turns [] events rfl
      · rw [hresult, (settling_cons (t := .passed) trivial turns w.store).1]
    | true =>
      cases hpoll : p.wait? w.monitor with
      | none =>
        refine ⟨[.stuck], [.look p.name], .stuck ha hpoll, _, _, Batch.runAlone_enter_stuck
          { w with providers := done ++ p :: ps } texts (getElem?_chain done ps p) hm ha hpoll, ?_, rfl⟩
        rw [World.after_last, List.append_assoc]
        rfl
      | some wait =>
        have hturn := runAlone_turn c w texts done ps hm ha hpoll
        dsimp only at hturn
        rw [Batch.conclude_verdict] at hturn
        dsimp only at hturn
        cases hv : p.verdict c w.store texts with
        | passed | stuck =>
          have hcalled := called_verdict c w.store texts p
          rw [hv] at hcalled
          cases hcalled
        | failed e =>
          have hmonitor := monitor_at_failing c w texts wait p ps e
          obtain ⟨turns, events, hasked, f, b, hrun, hworld, hresult⟩ :=
            ih (w.at (w.monitor.run (failing c texts wait p ps e))) (done ++ [(p.tried c texts).state])
          rw [hmonitor] at hasked
          rw [List.length_append] at hrun
          refine ⟨.failed e :: turns, _, .failed wait e ha hpoll hv hasked, f, b, ?_, ?_, ?_⟩
          · exact (runAlone_failed c w texts done ps hm ha hpoll hv).trans hrun
          · rw [hworld]
            exact w.after_cons c texts done ps p (t := .failed e) trivial turns _ events hmonitor
          · rw [hresult, (settling_cons (t := .failed e) trivial turns w.store).1]
        | refused e =>
          rw [hv] at hturn
          refine ⟨[.refused e], _, .ended wait _ ha hpoll hv nofun, _, _, hturn.trans (Batch.runAlone_done _ texts _), ?_, rfl⟩
          rw [World.after_last]
          rfl
        | answered store e =>
          rw [hv] at hturn
          refine ⟨[.answered store e], _, .ended wait _ ha hpoll hv nofun, _, _, hturn.trans (Batch.runAlone_done _ texts _), ?_, rfl⟩
          rw [World.after_last]
          rfl

namespace Asked

variable {c : PipelineConfig} {store : Store} {texts : List String} {m : Monitor} {ps : List Provider}
  {turns : List Turn} {events : List Event}

/-- A chain is left before its end only at a turn that does not go on. -/
theorem goesOn (h : Asked c store texts m ps turns events) :
    (∀ t ∈ turns.dropLast, t.GoesOn) ∧ ((∀ t ∈ turns, t.GoesOn) → turns.length = ps.length) := by
  have later : ∀ {t : Turn} {turns : List Turn}, t.GoesOn → (∀ u ∈ turns.dropLast, u.GoesOn) →
      ∀ u ∈ (t :: turns).dropLast, u.GoesOn := by
    intro t turns ht hturns u hu
    cases turns with
    | nil => cases hu
    | cons v turns =>
      rw [List.dropLast_cons_cons] at hu
      rcases List.mem_cons.1 hu with rfl | hu
      · exact ht
      · exact hturns u hu
  induction h with
  | exhausted => exact ⟨nofun, fun _ => rfl⟩
  | passed _ _ ih =>
    exact ⟨later trivial ih.1, fun hall => congrArg (· + 1) (ih.2 fun t ht => hall t (List.mem_cons_of_mem _ ht))⟩
  | failed wait e _ _ _ _ ih =>
    exact ⟨later trivial ih.1, fun hall => congrArg (· + 1) (ih.2 fun t ht => hall t (List.mem_cons_of_mem _ ht))⟩
  | ended wait turn _ _ _ hends => exact ⟨nofun, fun hall => absurd (hall turn List.mem_cons_self) hends⟩
  | stuck => exact ⟨nofun, fun hall => (hall .stuck List.mem_cons_self).elim⟩

/-- What becomes of a batch at a provider that is called is up to that provider. -/
theorem verdict (h : Asked c store texts m ps turns events) :
    ∀ q ∈ ps.zip turns, q.2.called = true → q.2 = q.1.verdict c store texts := by
  induction h with
  | exhausted =>
    intro q hq
    cases hq
  | passed _ _ ih =>
    intro q hq hc
    rcases List.mem_cons.1 hq with rfl | hq
    · cases hc
    · exact ih q hq hc
  | failed wait e _ _ hv _ ih =>
    intro q hq hc
    rcases List.mem_cons.1 hq with rfl | hq
    · exact hv.symm
    · exact ih q hq hc
  | ended wait turn _ _ hv =>
    intro q hq _
    rw [List.zip_cons_cons, List.zip_nil_right, List.mem_singleton] at hq
    subst hq
    exact hv.symm
  | stuck =>
    intro q hq hc
    rw [List.zip_cons_cons, List.zip_nil_right, List.mem_singleton] at hq
    subst hq
    cases hc

theorem length_le (h : Asked c store texts m ps turns events) : turns.length ≤ ps.length := by
  induction h with
  | exhausted => exact Nat.le_refl 0
  | passed _ _ ih => exact Nat.succ_le_succ ih
  | failed _ _ _ _ _ _ ih => exact Nat.succ_le_succ ih
  | ended | stuck => exact Nat.succ_le_succ (Nat.zero_le _)

/-- Every turn is booked once, or not at all. -/
theorem booked (h : Asked c store texts m ps turns events) :
    events.filter Event.books = (ps.zip turns).flatMap fun q => q.2.booked q.1.name := by
  have hturn : ∀ (t : Turn) (name : String), (t.booked name).filter Event.books = t.booked name := by
    intro t name
    refine List.filter_eq_self.2 fun e he => ?_
    cases t with
    | failed e' =>
      rw [List.mem_singleton.1 he]
      split <;> rfl
    | answered =>
      rw [List.mem_singleton.1 he]
      rfl
    | passed | stuck | refused => cases he
  have hcalling : ∀ (p : Provider) (wait : Nat), (p.calling c texts wait).filter Event.books = [] := fun _ _ => rfl
  induction h with
  | exhausted => rfl
  | passed _ _ ih => exact ih
  | failed wait e _ _ _ _ ih =>
    rw [failing, List.filter_append, List.filter_append, List.filter_append, hcalling, hturn, ih, List.zip_cons_cons,
      List.flatMap_cons]
    simp [Event.books]
  | ended wait turn =>
    rw [List.filter_append, hcalling, hturn, List.zip_cons_cons, List.zip_nil_right, List.flatMap_singleton]
    rfl
  | stuck =>
    rw [List.zip_cons_cons, List.zip_nil_right, List.flatMap_singleton]
    rfl

end Asked

theorem checkVectors_error {store : Store} {p : Provider} {expected : Nat} {vectors : List Vec} {e : IndexError}
    (h : checkVectors store p expected vectors = .error e) :
    (∃ cause, e = .embed cause) ∨ ∃ s dimensions, e = .store s ∧ store.widen dimensions = .error s := by
  unfold checkVectors at h
  dsimp only at h
  split at h
  · cases h
    exact .inl ⟨_, rfl⟩
  · split at h
    · cases h
      exact .inl ⟨_, rfl⟩
    · split at h
      · cases h
      · split at h
        · rename_i s hs
          cases h
          exact .inr ⟨s, _, rfl, hs⟩
        · cases h

/-- An answer is refused only by a store that makes no room for its vectors. -/
theorem refused_of_verdict {c : PipelineConfig} {store : Store} {texts : List String} {p : Provider} {e : IndexError}
    (h : p.verdict c store texts = .refused e) : ∃ s dimensions, e = .store s ∧ store.widen dimensions = .error s := by
  unfold Provider.verdict at h
  cases hr : (p.tried c texts).outcome with
  | error cause =>
    rw [hr] at h
    cases h
  | ok vectors =>
    rw [hr] at h
    dsimp only at h
    cases hc : checkVectors store p texts.length vectors with
    | ok r =>
      rw [hc] at h
      cases h
    | error e' =>
      rw [hc] at h
      rcases checkVectors_error hc with ⟨cause, rfl⟩ | ⟨s, dimensions, rfl, hs⟩
      · cases h
      · cases h
        exact ⟨s, dimensions, rfl, hs⟩

theorem Asked.refused {c : PipelineConfig} {store : Store} {texts : List String} {m : Monitor} {ps : List Provider}
    {turns : List Turn} {events : List Event} (h : Asked c store texts m ps turns events) {e : IndexError}
    (he : .refused e ∈ turns) : ∃ s dimensions, e = .store s ∧ store.widen dimensions = .error s := by
  rw [← List.map_snd_zip h.length_le] at he
  obtain ⟨q, hq, hqe⟩ := List.mem_map.1 he
  have hv := h.verdict q hq (hqe ▸ rfl)
  exact refused_of_verdict (hv.symm.trans hqe)

theorem settling_eq_ok (turns : List Turn) (e : Embedded) :
    (settling turns).result? = some (.ok e) ↔ ∃ store, turns.getLast? = some (.answered store e) := by
  unfold settling
  cases turns.getLast? with
  | none => exact ⟨nofun, nofun⟩
  | some t =>
    cases t with
    | answered store e' =>
      refine ⟨fun h => ⟨store, ?_⟩, fun ⟨_, h⟩ => ?_⟩ <;> cases h <;> rfl
    | passed | stuck | failed | refused => exact ⟨nofun, nofun⟩

theorem settling_eq_store (turns : List Turn) (e : StoreError) :
    (settling turns).result? = some (.error (.store e)) ↔ turns.getLast? = some (.refused (.store e)) := by
  unfold settling
  cases turns.getLast? with
  | none => exact ⟨nofun, nofun⟩
  | some t =>
    cases t with
    | refused e' => refine ⟨fun h => ?_, fun h => ?_⟩ <;> cases h <;> rfl
    | passed | stuck | failed | answered => exact ⟨nofun, nofun⟩

/-- No provider is left just when the batch went on behind the last one. -/
theorem Asked.exhausted_iff {c : PipelineConfig} {store : Store} {texts : List String} {m : Monitor}
    {ps : List Provider} {turns : List Turn} {events : List Event} (h : Asked c store texts m ps turns events) :
    (settling turns).result? = some (.error (.embed .noProvider)) ↔
      turns.length = ps.length ∧ ∀ t ∈ turns, t.GoesOn := by
  obtain ⟨hgo, hlength⟩ := h.goesOn
  rcases List.eq_nil_or_concat turns with rfl | ⟨front, last, rfl⟩
  · exact ⟨fun _ => ⟨hlength nofun, nofun⟩, fun _ => rfl⟩
  · rw [List.concat_eq_append] at h hgo hlength ⊢
    rw [List.dropLast_concat] at hgo
    have hall : (∀ t ∈ front ++ [last], t.GoesOn) ↔ last.GoesOn := by
      refine ⟨fun hall => hall last (by simp), fun hl t ht => ?_⟩
      rcases List.mem_append.1 ht with ht | ht
      · exact hgo t ht
      · exact List.mem_singleton.1 ht ▸ hl
    rw [and_iff_right_of_imp hlength, hall, settling, List.getLast?_concat, Option.getD_some]
    cases last with
    | passed | failed => exact ⟨fun _ => trivial, fun _ => rfl⟩
    | stuck | answered => exact ⟨nofun, nofun⟩
    | refused e =>
      obtain ⟨s, -, rfl, -⟩ := h.refused (e := e) (by simp)
      exact ⟨nofun, nofun⟩

/-- A batch that is run alone takes its turns through the chain in order. A provider is called just when its circuit is
closed or half open at its turn; the first answer that is taken is the result, with one success booked for its
provider. Before it each failure is booked once, as a rate limit or as a failure, and an answer that the store makes no
room for ends the course with nothing booked. No provider is left exactly when all were passed over or failed. -/
theorem embedAlone_asks (c : PipelineConfig) (w : World) (texts : List String) :
    let out := w.embedAlone c ⟨texts, false, .choose 0⟩
    ∃ turns events, Asked c w.store texts w.monitor w.providers turns events ∧
      out.1 = w.after c texts [] w.providers turns events ∧ out.2 = (settling turns).result? ∧
      (∀ q ∈ w.providers.zip turns, q.2.called = true → q.2 = q.1.verdict c w.store texts) ∧
      (∀ t ∈ turns.dropLast, t.GoesOn) ∧
      events.filter Event.books = ((w.providers.zip turns).flatMap fun q => q.2.booked q.1.name) ∧
      (∀ e, out.2 = some (.ok e) ↔ ∃ store, turns.getLast? = some (.answered store e)) ∧
      (∀ e, out.2 = some (.error (.store e)) ↔ turns.getLast? = some (.refused (.store e))) ∧
      (∀ e, .refused e ∈ turns → ∃ s dimensions, e = .store s ∧ w.store.widen dimensions = .error s) ∧
      (out.2 = some (.error (.embed .noProvider)) ↔
        turns.length = w.providers.length ∧ ∀ t ∈ turns, t.GoesOn) ∧
      (w.health.Idle → out.2.isSome = true) := by
  intro out
  obtain ⟨turns, events, hasked, f, b, hrun, hworld, hresult⟩ :=
    runAlone_asked c texts (show 0 < max 1 c.batchConcurrency by omega) w.providers w []
  have hout : out = (f.toWorld, b.result?) := by
    have hrun' : Batch.runAlone c { w with freePermits := max 1 c.batchConcurrency } ⟨texts, false, .choose 0⟩ = (f, b) :=
      hrun
    simp only [out, World.embedAlone, hrun']
  rw [hout, hworld, hresult]
  refine ⟨turns, events, hasked, rfl, rfl, hasked.verdict, hasked.goesOn.1, hasked.booked, settling_eq_ok turns,
    settling_eq_store turns, fun e => hasked.refused, hasked.exhausted_iff, fun hidle => ?_⟩
  have hsome : out.2.isSome = true := (World.Asks.alone c w rfl hidle).2
  rwa [hout, hresult] at hsome

/-- Three providers: the circuit of the first is open, the second is never ready, and the third hashes. -/
def threeProviders : World where
  providers := [
    { name := "a", model := "m", dimensions := 2, settled := .hashed 2 },
    { name := "b", model := "m", dimensions := 2, settled := .fails (.rateLimited "b" none) },
    Provider.hashing 2]
  health := (Registry.recordFailure { config := ⟨2, 3600000, 3, 60000, 8⟩ } 0 "a").recordFailure 0 "a"
  store := .memory {}

theorem idle_threeProviders : threeProviders.health.Idle := by
  have hempty : ({ config := ⟨2, 3600000, 3, 60000, 8⟩ } : Registry).Idle := Registry.idle_empty (by decide)
  have hkeeps := (Registry.keepsSlots_recordFailure { config := ⟨2, 3600000, 3, 60000, 8⟩ } 0 "a").trans
    (Registry.keepsSlots_recordFailure _ 0 "a")
  exact ⟨hkeeps.opened hempty.toOpen, fun name => (hkeeps.inFlight name).trans (hempty.inFlight name)⟩

theorem embedAlone_asks_threeProviders :
    let out := threeProviders.embedAlone ⟨4, 100, 0, 1, 1, ⟨2, 10, 100⟩, 5⟩ ⟨["x"], false, .choose 0⟩
    threeProviders.health.Idle ∧ out.2.isSome = true ∧ out.1.providers.map (·.calls) = [0, 2, 1] ∧ out.1.now = 15 := by
  obtain ⟨turns, events, -, -, -, -, -, -, -, -, -, -, hsome⟩ :=
    embedAlone_asks ⟨4, 100, 0, 1, 1, ⟨2, 10, 100⟩, 5⟩ threeProviders ["x"]
  exact ⟨idle_threeProviders, hsome idle_threeProviders, by decide +kernel, by decide +kernel⟩

end CodeIndex.Embedding
