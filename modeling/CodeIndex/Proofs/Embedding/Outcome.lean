import CodeIndex.Proofs.Embedding.Answer
import CodeIndex.Proofs.Embedding.Progress

/-!
What a run leaves in the store. Whatever order the batches of many files are answered in, the store has gone through
the ends of single files, one after the other, and through nothing else but the making of room for longer vectors.
-/

namespace CodeIndex.Embedding

open Health Relation

theorem grouped_take {size : Nat} (texts : List α) (m : Nat) :
    ((List.range m).map fun i => (texts.drop (i * size)).take size).flatten = texts.take (m * size) := by
  induction m with
  | zero => simp
  | succ m ih =>
    rw [List.range_succ, List.map_append, List.flatten_append, ih, Nat.succ_mul, List.take_add]
    simp

theorem flatten_grouped {size : Nat} (hs : 1 ≤ size) (texts : List α) : (grouped size texts).flatten = texts := by
  rw [grouped, grouped_take]
  apply List.take_of_length_le
  have := Nat.lt_div_mul_add (a := texts.length + size - 1) hs
  omega

theorem ne_nil_of_mem_grouped {size : Nat} (hs : 1 ≤ size) {texts group : List α} (h : group ∈ grouped size texts) :
    group ≠ [] := by
  obtain ⟨i, hi, rfl⟩ := List.mem_map.1 h
  have hlt : i * size < texts.length := by
    have hd := Nat.div_mul_le_self (texts.length + size - 1) size
    have hm := Nat.mul_le_mul_right size (Nat.succ_le_of_lt (List.mem_range.1 hi))
    rw [Nat.succ_mul] at hm
    omega
  rw [← List.length_pos_iff, List.length_take, List.length_drop]
  omega

namespace Prepared

variable {c : PipelineConfig} {σ : Store.Settings}

/-- The chunks of a file as they are embedded. -/
def pieces (c : PipelineConfig) (p : Prepared) : List Chunk :=
  Chunk.splitOversized p.chunks c.maxChunkSize c.overlapLines

/-- The texts of a file, batch by batch. -/
def groups (c : PipelineConfig) (p : Prepared) : List (List String) :=
  grouped (max 1 c.batchSize) ((p.pieces c).map (Chunk.contextualize p.file.path p.file.language))

/-- How a file may end whose batches were answered. -/
def Ends (k : Contract c σ) (project : String) (p : Prepared) (s s' : Store) (o : Outcome) : Prop :=
  ∃ results, List.Forall₂ k.answer (p.groups c) results ∧
    (Job.ofPrepared c 0 p).finish project s results = (s', o)

end Prepared

/-- What becomes of a store as files end. -/
inductive Traced {c : PipelineConfig} {σ : Store.Settings} (k : Contract c σ) (project : String) (s : Store) :
    List (Prepared × Outcome) → Store → Prop where
  | start : Traced k project s [] s
  | widen {log : List (Prepared × Outcome)} {s' s'' : Store} : Traced k project s log s' →
      ReflTransGen Store.Widening s' s'' → Traced k project s log s''
  | ended {log : List (Prepared × Outcome)} {s' s'' : Store} {p : Prepared} {o : Outcome} :
      Traced k project s log s' → p.Ends k project s' s'' o → Traced k project s (log ++ [(p, o)]) s''

theorem keeps_putAll (s : Store) (rs : List Record) : s.Keeps (putAll s rs).1 := by
  induction rs generalizing s with
  | nil => exact .refl s
  | cons r rs ih =>
    unfold putAll
    split
    · rename_i s' h
      exact (Store.keeps_put h).trans (ih s')
    · exact .refl s

theorem keeps_persist (s : Store) (file : FileEntry) (rs : List Record) : s.Keeps (persist s file rs).1 := by
  have h := (Store.keeps_deleteRecords s file.id).trans (keeps_putAll _ rs)
  unfold persist
  split
  · rename_i he
    rw [he] at h
    exact h
  · rename_i he
    rw [he] at h
    split
    · rename_i hp
      exact h.trans (Store.keeps_putFile hp)
    · exact h

theorem keeps_finish (project : String) (s : Store) (j : Job) (results : List (Except IndexError Embedded)) :
    s.Keeps (j.finish project s results).1 := by
  unfold Job.finish
  simp only
  split
  · exact .refl s
  · have h := keeps_persist s j.file (j.records project (results.filterMap Except.toOption))
    split <;> rename_i he <;> rw [he] at h <;> exact h

/-- How a file ends depends on its entry and its chunks only. -/
theorem finish_congr {i j : Job} (hf : i.file = j.file) (hc : i.chunks = j.chunks) (project : String) (s : Store)
    (results : List (Except IndexError Embedded)) : i.finish project s results = j.finish project s results := by
  unfold Job.finish Job.records
  rw [hf, hc]

/-- A job that does the work of a file. -/
structure Job.Of {c : PipelineConfig} {σ : Store.Settings} (k : Contract c σ) (p : Prepared) (j : Job) : Prop where
  file : j.file = p.file
  chunks : j.chunks = p.pieces c
  texts : j.batches.map (·.texts) = p.groups c
  batches : ∀ b ∈ j.batches, k.batch b

theorem Sweep.texts {c : PipelineConfig} {id i : Nat} {f f' : Floor} {bs bs' : List Batch}
    (h : Sweep c id i f bs f' bs') : bs'.map (·.texts) = bs.map (·.texts) := by
  induction h with
  | nil => rfl
  | cons course _ _ _ ih => rw [List.map_cons, List.map_cons, course.frame.texts, ih]

theorem ofPrepared_of {c : PipelineConfig} {σ : Store.Settings} (k : Contract c σ) (id : Nat) (p : Prepared) :
    (Job.ofPrepared c id p).Of k p := by
  refine ⟨rfl, rfl, ?_, fun b hb => ?_⟩
  · simp only [Job.ofPrepared, List.map_map]
    exact List.map_id _
  · obtain ⟨texts, ht, rfl⟩ := List.mem_map.1 hb
    exact k.fresh texts (ne_nil_of_mem_grouped (Nat.le_max_left ..) ht)

namespace Run

variable {c : PipelineConfig} {σ : Store.Settings} {k : Contract c σ} {project : String} {files : List Prepared}
  {s : Store} {r r' : Run} {id : Nat}

/-- The books of a run: each file is under way, waits, or has ended, and the store shows the ends so far. -/
structure Accounts (k : Contract c σ) (project : String) (files : List Prepared) (s : Store) (r : Run) : Prop where
  kept : k.Kept r.floor
  sound : ∀ j ∈ r.active ++ r.waiting, ∀ b ∈ j.batches, b.stage.Sound r.floor.providers.length c.retry.attempts
  jobs : ∀ j ∈ r.active ++ r.waiting, ∃ p, files[j.id]? = some p ∧ j.Of k p
  log : ∃ log : List (Nat × Prepared × Outcome), Traced k project s (log.map (·.2)) r.floor.store ∧
    log.map (·.2.2) = r.outcomes ∧ (∀ x ∈ log, files[x.1]? = some x.2.1) ∧
    (log.map (·.1) ++ (r.active ++ r.waiting).map (·.id)).Perm (List.range files.length)

theorem Accounts.ids (h : Accounts k project files s r) : ((r.active ++ r.waiting).map (·.id)).Nodup := by
  obtain ⟨log, -, -, -, hp⟩ := h.log
  exact (List.nodup_append.1 (hp.nodup_iff.2 List.nodup_range)).2.1

/-- What files wait for, and which of them are under way, is of no account. -/
theorem Accounts.congr (h : Accounts k project files s r) (hp : r'.floor.providers = r.floor.providers)
    (hh : r'.floor.health = r.floor.health) (hs : r'.floor.store = r.floor.store)
    (hj : r'.active ++ r'.waiting = r.active ++ r.waiting) (ho : r'.outcomes = r.outcomes) :
    Accounts k project files s r' where
  kept := ⟨by rw [hp, hh]; exact h.kept.floor, by rw [hs]; exact h.kept.settings, by rw [hs]; exact h.kept.sane⟩
  sound := by rw [hj, hp]; exact h.sound
  jobs := by rw [hj]; exact h.jobs
  log := by rw [hj, hs, ho]; exact h.log

theorem Accounts.startNext (h : Accounts k project files s r) : Accounts k project files s r.startNext := by
  unfold Run.startNext
  split
  · exact h
  · rename_i j rest hw
    have he := congrArg Floor.toWorld (Floor.wake_eq r.floor j.id)
    refine h.congr (congrArg World.providers he) (congrArg World.health he) (congrArg World.store he) ?_ rfl
    rw [hw, List.append_assoc, List.singleton_append]

/-- What a look at one of the files does for the books. -/
theorem Accounts.looked {pre post : List Job} {j : Job} {floor : Floor} {bs : List Batch}
    (h : Accounts k project files s r) (ha : r.active = pre ++ j :: post)
    (sweep : Sweep c j.id 0 r.floor j.batches floor bs) :
    k.Kept floor ∧ (∀ b ∈ bs, k.batch b) ∧
      (∀ b ∈ bs, b.stage.Sound floor.providers.length c.retry.attempts) ∧
      ∀ i ∈ pre ++ post ++ r.waiting, i ∈ r.active ++ r.waiting ∧
        ∀ b ∈ i.batches, b.stage.Sound floor.providers.length c.retry.attempts := by
  have hj : j ∈ r.active ++ r.waiting := by
    rw [ha]
    exact List.mem_append_left _ (List.mem_append_right _ List.mem_cons_self)
  obtain ⟨p, -, hof⟩ := h.jobs j hj
  obtain ⟨hfloor, hb⟩ := Contract.sweep h.kept hof.batches (h.sound j hj) sweep
  refine ⟨hfloor, hb, sweep.sound (h.sound j hj), fun i hi => ?_⟩
  have hi' : i ∈ r.active ++ r.waiting := by
    rw [ha]
    exact List.mem_append.2 ((List.mem_append.1 hi).imp_left fun hm =>
      List.mem_append.2 ((List.mem_append.1 hm).imp_right (List.mem_cons_of_mem j)))
  refine ⟨hi', fun b hb => ?_⟩
  rw [sweep.providers_length]
  exact h.sound i hi' b hb

theorem mem_replaced {pre post rest : List Job} {i j : Job} :
    i ∈ pre ++ j :: post ++ rest ↔ i = j ∨ i ∈ pre ++ post ++ rest := by
  simp only [List.append_assoc, List.cons_append, List.mem_append, List.mem_cons]
  tauto

theorem Accounts.kept' {pre post : List Job} {j : Job} {floor : Floor} {bs : List Batch}
    (h : Accounts k project files s r) (ha : r.active = pre ++ j :: post)
    (sweep : Sweep c j.id 0 r.floor j.batches floor bs) :
    Accounts k project files s { r with floor, active := pre ++ { j with batches := bs } :: post } := by
  obtain ⟨hfloor, hb, hs, hothers⟩ := h.looked ha sweep
  obtain ⟨p, hp, hof⟩ := h.jobs j (by rw [ha]; exact mem_replaced.2 (.inl rfl))
  refine ⟨hfloor, ?_, ?_, ?_⟩
  · intro i hi
    rcases mem_replaced.1 hi with rfl | hi
    · exact hs
    · exact (hothers i hi).2
  · intro i hi
    rcases mem_replaced.1 hi with rfl | hi
    · exact ⟨p, hp, hof.file, hof.chunks, sweep.texts.trans hof.texts, hb⟩
    · exact h.jobs i (hothers i hi).1
  · obtain ⟨log, ht, ho, hf, hperm⟩ := h.log
    refine ⟨log, .widen ht sweep.store, ho, hf, ?_⟩
    rw [ha] at hperm
    simpa using hperm

/-- The batches of a file that is under way end as its contract says. -/
theorem Accounts.answers {j : Job} {floor : Floor} {bs : List Batch} {results : List (Except IndexError Embedded)}
    (h : Accounts k project files s r) (hj : j ∈ r.active ++ r.waiting)
    (sweep : Sweep c j.id 0 r.floor j.batches floor bs) (hr : bs.mapM Batch.result? = some results) :
    ∃ p, files[j.id]? = some p ∧ j.Of k p ∧ List.Forall₂ k.answer (p.groups c) results := by
  obtain ⟨p, hp, hof⟩ := h.jobs j hj
  obtain ⟨-, hb⟩ := Contract.sweep h.kept hof.batches (h.sound j hj) sweep
  refine ⟨p, hp, hof, ?_⟩
  rw [← hof.texts, ← sweep.texts, List.forall₂_map_left_iff]
  exact List.Forall₂.imp (fun b r hbr => k.done hbr.1 hbr.2)
    ((List.forall₂_and_left bs results).2 ⟨hb, mapM_result?_eq_some.1 hr⟩)

theorem Accounts.ended {pre post : List Job} {j : Job} {floor : Floor} {bs : List Batch}
    {results : List (Except IndexError Embedded)} (h : Accounts k project files s r) (ha : r.active = pre ++ j :: post)
    (sweep : Sweep c j.id 0 r.floor j.batches floor bs) (hr : bs.mapM Batch.result? = some results) :
    Accounts k project files s
      { r with
        floor := { floor with store := (j.finish project floor.store results).1 }
        active := pre ++ post
        outcomes := r.outcomes ++ [(j.finish project floor.store results).2] } := by
  obtain ⟨hfloor, -, -, hothers⟩ := h.looked ha sweep
  obtain ⟨p, hp, hof, hanswers⟩ := h.answers (by rw [ha]; exact mem_replaced.2 (.inl rfl)) sweep hr
  have hk := keeps_finish project floor.store j results
  refine ⟨⟨hfloor.floor, hk.settings.trans hfloor.settings, hk.sane hfloor.sane⟩, fun i hi => (hothers i hi).2,
    fun i hi => h.jobs i (hothers i hi).1, ?_⟩
  obtain ⟨log, ht, ho, hf, hperm⟩ := h.log
  have hends : p.Ends k project floor.store (j.finish project floor.store results).1
      (j.finish project floor.store results).2 :=
    ⟨results, hanswers, finish_congr hof.file.symm hof.chunks.symm project floor.store results⟩
  refine ⟨log ++ [(j.id, p, (j.finish project floor.store results).2)], ?_, ?_, ?_, ?_⟩
  · rw [List.map_append]
    exact .ended (.widen ht sweep.store) hends
  · rw [List.map_append, ho]
    rfl
  · intro x hx
    rcases List.mem_append.1 hx with hx | hx
    · exact hf x hx
    · rw [List.mem_singleton.1 hx]
      exact hp
  · refine List.Perm.trans ?_ hperm
    rw [ha]
    simp only [List.map_append, List.map_cons, List.map_nil, List.append_assoc, List.cons_append, List.nil_append]
    exact (List.perm_middle.symm).append_left _

theorem Accounts.visited (h : Accounts k project files s r) (v : Visited c project r id r') :
    Accounts k project files s r' := by
  cases v with
  | absent => exact h
  | kept pre post j floor bs ha hid sweep hr =>
    subst hid
    exact h.kept' ha sweep
  | ended pre post j floor bs results ha hid sweep hr =>
    subst hid
    exact (h.ended ha sweep hr).startNext

/-- Time that passes is of no account. -/
theorem Accounts.awaited {q : Run} (h : Accounts k project files s r)
    (hq : (if r.floor.ready.isEmpty then r.awaken? else some r) = some q) :
    Accounts k project files s q ∧ q.outcomes = r.outcomes ∧ q.floor.store = r.floor.store := by
  split at hq
  · by_cases ha : r.alarms = []
    · simp [awaken?, ha] at hq
    · obtain ⟨floor, hf, he, -⟩ := awaken?_spec ha
      rw [hf] at hq
      cases hq
      rw [he]
      exact ⟨h.congr rfl rfl rfl rfl rfl, rfl, rfl⟩
  · cases hq
    exact ⟨h, rfl, rfl⟩

theorem Accounts.step (h : Accounts k project files s r) (hr : r.step? c project = some r') :
    Accounts k project files s r' := by
  have looked : ∀ {q : Run} {i : Nat} {rest : List Nat}, Accounts k project files s q →
      Accounts k project files s (visit c project { q with floor := { q.floor with ready := rest } } i) := by
    intro q i rest hq
    have hpop : Accounts k project files s { q with floor := { q.floor with ready := rest } } :=
      hq.congr rfl rfl rfl rfl rfl
    have hids := hq.ids
    rw [List.map_append] at hids
    exact hpop.visited (visit_visited (List.nodup_append.1 hids).1 fun j hj => hpop.sound j (List.mem_append_left _ hj))
  unfold step? at hr
  obtain ⟨q, hq, hr⟩ := Option.bind_eq_some_iff.1 hr
  cases hready : q.floor.ready with
  | nil =>
    simp only [hready] at hr
    cases hr
  | cons i rest =>
    simp only [hready] at hr
    cases hr
    exact looked (h.awaited hq).1

theorem Accounts.complete (h : Accounts k project files s r) : Accounts k project files s (r.complete c project) := by
  fun_induction Run.complete c project r with
  | case1 => exact h
  | case2 r r' hs _ ih => exact ih (h.step hs)
  | case3 r r' hs => exact h.step hs

theorem accounts_start {w : World} (hf : k.floor w.providers w.health) (hσ : w.store.settings = σ) (hs : w.store.Sane)
    (project : String) (files : List Prepared) : Accounts k project files w.store (start c w files) := by
  have hjobs := start_jobs c w files
  refine ⟨⟨hf, hσ, hs⟩, ?_, ?_, [], .start, rfl, fun x hx => (List.not_mem_nil hx).elim, ?_⟩
  · rw [hjobs]
    intro j hj b hb
    rw [stage_of_mem_jobs hj b hb]
    trivial
  · rw [hjobs]
    intro j hj
    obtain ⟨⟨p, i⟩, hm, rfl⟩ := List.mem_map.1 hj
    exact ⟨p, List.mk_mem_zipIdx_iff_getElem?.1 hm, ofPrepared_of k i p⟩
  · rw [hjobs, map_id_jobs]
    exact .refl _

end Run

/-- Embedding files takes the store through the ends of some of them, and of all if no call was under way before. -/
theorem generate_traced {c : PipelineConfig} {w : World} (k : Contract c w.store.settings)
    (hf : k.floor w.providers w.health) (hs : w.store.Sane) (project : String) (files : List Prepared) :
    ∃ log, Traced k project w.store log (w.generate c project files false).1.store ∧
      log.map (·.2) = (w.generate c project files false).2.outcomes ∧ (∀ x ∈ log, x.1 ∈ files) ∧
      k.floor (w.generate c project files false).1.providers (w.generate c project files false).1.health ∧
      w.store.Keeps (w.generate c project files false).1.store ∧
      (w.health.Idle → (w.generate c project files false).1.health.Idle ∧ (log.map (·.1)).Perm files) := by
  have h := (Run.accounts_start hf rfl hs project files).complete
  obtain ⟨log, ht, ho, hm, hperm⟩ := h.log
  refine ⟨log.map (·.2), ht, ?_, ?_, h.kept.floor, ⟨h.kept.settings, fun _ => h.kept.sane⟩, fun hi => ?_⟩
  · rw [List.map_map]
    exact ho
  · intro x hx
    obtain ⟨y, hy, rfl⟩ := List.mem_map.1 hx
    exact List.mem_of_getElem? (hm y hy)
  · obtain ⟨hl, hfed⟩ := Run.live_start (c := c) hi files
    obtain ⟨-, ha, hw⟩ := hl.complete hfed project
    refine ⟨Run.idle_complete hi files, ?_⟩
    rw [ha, hw, List.append_nil, List.map_nil, List.append_nil] at hperm
    have hsome := hperm.map fun i => files[i]?
    have hlog : (log.map (·.1)).map (fun i => files[i]?) = ((log.map (·.2)).map (·.1)).map some := by
      rw [List.map_map, List.map_map, List.map_map]
      exact List.map_congr_left hm
    have hfiles : (List.range files.length).map (fun i => files[i]?) = files.map some := by
      apply List.ext_getElem
      · simp
      · intro i h₁ h₂
        simp only [List.getElem_map, List.getElem_range]
        exact List.getElem?_eq_getElem (by simpa using h₂)
    rw [hlog, hfiles] at hsome
    exact (List.map_perm_map_iff fun _ _ h => Option.some.inj h).1 hsome

/-- No file ends twice. -/
theorem length_outcomes_le {c : PipelineConfig} {w : World} (hs : w.store.Sane) (project : String)
    (files : List Prepared) : (w.generate c project files false).2.outcomes.length ≤ files.length := by
  have h := (Run.accounts_start (k := .answering c (w.providers.map Provider.signature) w.store.settings) (w := w)
    rfl rfl hs project files).complete
  obtain ⟨log, -, ho, -, hperm⟩ := h.log
  have hlen := hperm.length_eq
  simp only [List.length_append, List.length_map, List.length_range] at hlen
  change ((Run.start c w files).complete c project).outcomes.length ≤ files.length
  rw [← ho, List.length_map]
  omega

theorem Traced.keeps {c : PipelineConfig} {σ : Store.Settings} {k : Contract c σ} {project : String} {s s' : Store}
    {log : List (Prepared × Outcome)} (h : Traced k project s log s') (hs : s.Sane) : s.Keeps s' := by
  induction h with
  | start => exact .refl s
  | widen _ hw ih => exact ih.trans (Store.widenings_spec hw (ih.sane hs)).2.2
  | @ended log s₁ s₂ p o _ hend ih =>
    obtain ⟨results, -, hf⟩ := hend
    have hk := keeps_finish project s₁ (Job.ofPrepared c 0 p) results
    rw [hf] at hk
    exact ih.trans hk

/-- Where one file ended, nothing but that has changed entries and records. -/
theorem Traced.single {c : PipelineConfig} {σ : Store.Settings} {k : Contract c σ} {project : String} {s s' : Store}
    {p : Prepared} {o : Outcome} (h : Traced k project s [(p, o)] s') (hs : s.Sane) :
    ∃ s₁ s₂, p.Ends k project s₁ s₂ o ∧ s₁.rows = s.rows ∧ s₁.entries = s.entries ∧ s.Keeps s₁ ∧
      s'.rows = s₂.rows ∧ s'.entries = s₂.entries := by
  have none : ∀ {log s'}, Traced k project s log s' → log = [] → s'.rows = s.rows ∧ s'.entries = s.entries := by
    intro log s' h hlog
    induction h with
    | start => exact ⟨rfl, rfl⟩
    | widen h hw ih =>
      obtain ⟨hr, he, -⟩ := Store.widenings_spec hw ((h.keeps hs).sane hs)
      rw [hr, he]
      exact ih hlog
    | ended => simp at hlog
  generalize hlog : [(p, o)] = log at h
  induction h with
  | start => cases hlog
  | widen h hw ih =>
    obtain ⟨hr, he, -⟩ := Store.widenings_spec hw ((h.keeps hs).sane hs)
    obtain ⟨s₁, s₂, hend, hrows, hentries, hkeeps, hrows', hentries'⟩ := ih hlog
    exact ⟨s₁, s₂, hend, hrows, hentries, hkeeps, hr.trans hrows', he.trans hentries'⟩
  | @ended log s₁ s₂ q o' h hend =>
    cases log with
    | nil =>
      cases hlog
      obtain ⟨hr, he⟩ := none h rfl
      exact ⟨s₁, s₂, hend, hr, he, h.keeps hs, rfl, rfl⟩
    | cons x log => simp at hlog

end CodeIndex.Embedding
