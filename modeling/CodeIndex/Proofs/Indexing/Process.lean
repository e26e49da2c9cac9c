import CodeIndex.Proofs.Indexing.Settled
import CodeIndex.Proofs.Store.Identifiers

/-!
States of an index over the lives of many processes. Each finds the store that the one before left, and nothing else;
it may have another configuration and other providers. What holds of the names of all entries, and of every record that
is made of a file, holds in every state that can be reached.
-/

namespace CodeIndex

open CodeIndex.Embedding Files Lexical

variable {s s' : Store} {file : FileEntry} {rs : List Record} {P : Record → Prop}

/-- The records that a store takes, up to the first that it refuses. -/
def Store.taken (s : Store) : List Record → List Record
  | [] => []
  | r :: rest =>
    match s.put r with
    | .ok s => r :: s.taken rest
    | .error _ => []

theorem Store.taken_prefix (s : Store) (rs : List Record) : s.taken rs <+: rs := by
  induction rs generalizing s with
  | nil => exact List.prefix_rfl
  | cons r rs ih =>
    unfold Store.taken
    split
    · rename_i s₁ _
      exact List.cons_prefix_cons.2 ⟨rfl, ih s₁⟩
    · exact List.nil_prefix

theorem taken_of_putAll (h : putAll s rs = (s', .ok ())) : s.taken rs = rs := by
  induction rs generalizing s with
  | nil => rfl
  | cons r rs ih =>
    unfold putAll at h
    split at h
    · rename_i s₁ hput
      unfold Store.taken
      rw [hput]
      exact congrArg (r :: ·) (ih h)
    · cases h

/-- What a store takes of some records, and why it stops, depends on its settings alone. -/
theorem putAll_congr {t : Store} (h : s.settings = t.settings) (rs : List Record) :
    s.taken rs = t.taken rs ∧ (putAll s rs).2 = (putAll t rs).2 := by
  induction rs generalizing s t with
  | nil => exact ⟨rfl, rfl⟩
  | cons r rs ih =>
    obtain ⟨s', t', hs, ht⟩ | ⟨e, hs, ht⟩ := Store.put_congr h r
    · have hsettings : s'.settings = t'.settings := by
        rw [(Store.keeps_put hs).settings, (Store.keeps_put ht).settings, h]
      obtain ⟨htaken, hresult⟩ := ih hsettings
      simp only [Store.taken, putAll, hs, ht]
      exact ⟨congrArg (r :: ·) htaken, hresult⟩
    · simp only [Store.taken, putAll, hs, ht]
      exact ⟨trivial, trivial⟩

/-- Records with one more, which takes the place of those with its identifier. -/
def withRecord (rows : List Record) (r : Record) : List Record := rows.filter (·.id != r.id) ++ [r]

theorem mem_withRecord {rows : List Record} {r q : Record} :
    q ∈ withRecord rows r ↔ q ∈ rows ∧ q.id ≠ r.id ∨ q = r := by
  rw [withRecord, List.mem_append, List.mem_filter, bne_iff_ne, List.mem_singleton]

/-- Records in which those of a file gave way to others, put one after the other. -/
def rewritten (rows : List Record) (id : String) (rs : List Record) : List Record :=
  rs.foldl withRecord (rows.filter (·.fileId != id))

theorem mem_foldl_withRecord_congr {xs ys : List Record} (h : ∀ q, q ∈ xs ↔ q ∈ ys) (rs : List Record) (q : Record) :
    q ∈ rs.foldl withRecord xs ↔ q ∈ rs.foldl withRecord ys := by
  induction rs generalizing xs ys with
  | nil => exact h q
  | cons r rs ih => exact ih fun q => by rw [mem_withRecord, mem_withRecord, h]

theorem mem_rewritten_congr {xs ys : List Record} (h : ∀ q, q ∈ xs ↔ q ∈ ys) (id : String) (rs : List Record)
    (q : Record) : q ∈ rewritten xs id rs ↔ q ∈ rewritten ys id rs :=
  mem_foldl_withRecord_congr (fun q => by rw [List.mem_filter, List.mem_filter, h]) rs q

theorem of_mem_foldl_withRecord {rows : List Record} {q : Record} (h : q ∈ rs.foldl withRecord rows) :
    q ∈ rows ∨ q ∈ rs := by
  induction rs generalizing rows with
  | nil => exact .inl h
  | cons r rs ih =>
    rcases ih h with h | h
    · rcases mem_withRecord.1 h with ⟨h, -⟩ | rfl
      · exact .inl h
      · exact .inr List.mem_cons_self
    · exact .inr (List.mem_cons_of_mem r h)

theorem of_mem_rewritten {rows : List Record} {id : String} {q : Record} (h : q ∈ rewritten rows id rs) :
    q ∈ rows ∨ q ∈ rs := (of_mem_foldl_withRecord h).imp_left List.mem_of_mem_filter

/-- A store holds what it held, with the records that it takes. -/
theorem mem_rows_putAll (s : Store) (rs : List Record) (q : Record) :
    q ∈ (putAll s rs).1.rows ↔ q ∈ (s.taken rs).foldl withRecord s.rows := by
  induction rs generalizing s with
  | nil => exact Iff.rfl
  | cons r rs ih =>
    unfold putAll Store.taken
    cases hput : s.put r with
    | error e => exact Iff.rfl
    | ok s₁ =>
      exact (ih s₁).trans (mem_foldl_withRecord_congr (fun q => by rw [Store.mem_rows_put hput, mem_withRecord]) _ q)

/-- Once the records of a file were replaced a store has in their place those that it took, also if it refused one. -/
theorem mem_rows_persist {result : Except StoreError Unit} (h : persist s file rs = (s', result)) (q : Record) :
    q ∈ s'.rows ↔ q ∈ rewritten s.rows file.id (s.taken rs) := by
  have hall := mem_rows_putAll (s.deleteRecords file.id).1 rs q
  rw [Store.rows_deleteRecords, (putAll_congr (Store.keeps_deleteRecords s file.id).settings rs).1] at hall
  unfold persist at h
  split at h <;> rename_i he <;> rw [he] at hall
  · cases h
    exact hall
  · split at h
    · rename_i hput
      cases h
      rw [Store.rows_putFile hput]
      exact hall
    · cases h
      exact hall

theorem taken_of_persist (h : persist s file rs = (s', .ok ())) : s.taken rs = rs := by
  rw [← (putAll_congr (Store.keeps_deleteRecords s file.id).settings rs).1]
  unfold persist at h
  split at h
  · cases h
  · rename_i he
    exact taken_of_putAll he

/-- What holds of the records before, and of all that are made of the files, holds of the records after. -/
theorem Embedding.Traced.rows_all {c : PipelineConfig} {σ : Store.Settings} {k : Contract c σ} {project : String}
    {log : List (Prepared × Outcome)} (h : Traced k project s log s') (hs : s.Sane) (hrows : ∀ r ∈ s.rows, P r)
    (hnew : ∀ x ∈ log, ∀ embedded, k.Answers x.1 embedded →
      ∀ r ∈ (Job.ofPrepared c 0 x.1).records project embedded, P r) : ∀ r ∈ s'.rows, P r := by
  induction h with
  | start => exact hrows
  | widen h hw ih =>
    rw [(Store.widenings_spec hw ((h.keeps hs).sane hs)).1]
    exact ih hnew
  | @ended log s₁ s₂ p o _ hend ih =>
    have hbefore := ih fun x hx => hnew x (List.mem_append_left _ hx)
    obtain ⟨results, ha, hf⟩ := hend
    obtain ⟨-, ⟨rfl, -⟩ | ⟨-, embedded, result, rfl, hpersist, -⟩⟩ := finish_cases hf
    · exact hbefore
    · intro r hr
      obtain hr | hr := of_mem_rewritten ((mem_rows_persist hpersist r).1 hr)
      · exact hbefore r hr
      · exact hnew (p, o) (by simp) embedded (List.forall₂_map_right_iff.1 ha) r ((Store.taken_prefix _ _).subset hr)

theorem Store.rows_deleteFiles (s : Store) (project : String) (rels : List String) :
    (rels.foldl (fun s rel => s.deleteFile (fileId project rel)) s).rows =
      s.rows.filter fun r => !(rels.map (fileId project)).contains r.fileId := by
  induction rels generalizing s with
  | nil => simp
  | cons rel rels ih =>
    rw [List.foldl_cons, ih, Store.rows_deleteFile, List.filter_filter]
    refine List.filter_congr fun r _ => ?_
    by_cases hr : r.fileId = fileId project rel <;> simp [hr]

namespace Indexer

variable {c : IndexerConfig} {σ : Store.Settings} {k : Contract c.pipeline σ} {S : Scope} {x x' : Indexer}

theorem rows_change (hx : Change c S x x') (h : x.Named k S)
    (hnew : ∀ p, S.Admits c p → ∀ chunk ∈ p.pieces c.pipeline, ∀ texts e, k.answer texts (.ok e) →
      ∀ vector ∈ e.vectors, P (recordOf p.file.project p.file chunk vector e.signature))
    (hrows : ∀ r ∈ x.world.store.rows, P r) : ∀ r ∈ x'.world.store.rows, P r := by
  cases hx with
  | wait ms => exact hrows
  | clear project hm =>
    intro r hr
    change r ∈ (x.world.store.clear project).1.rows at hr
    rw [Store.rows_clear] at hr
    exact hrows r (List.mem_of_mem_filter hr)
  | intake project force s files hf hs =>
    obtain ⟨log, hi⟩ := intake_spec (c := c) h.floor h.settings h.keyed.sane hs hf.nodup project force
    refine hi.traced.rows_all h.keyed.sane hrows fun y hy embedded ha r hr => ?_
    have hlogged : S.Logged c project (files.filterMap (x.pending? c project force)) := logged_pending hf
    obtain ⟨chunk, hchunk, texts, e, he, vector, hv, rfl⟩ := mem_jobRecords ha hr
    rw [← hlogged.project y.1 (hi.mem y hy)]
    exact hnew y.1 (hlogged.admitted y.1 (hi.mem y hy)) chunk hchunk texts e he vector hv
  | forget project rels =>
    intro r hr
    rw [world_forgetAll] at hr
    dsimp only at hr
    rw [Store.rows_deleteFiles] at hr
    exact hrows r (List.mem_of_mem_filter hr)

/-- Words of some projects filled from the records in the store. -/
def warmed (x : Indexer) (projects : List String) : Indexer :=
  projects.foldl (fun x project => ((x.warm project).toOption.map (·.1)).getD x) x

/-- Words come from a record of their path, or were there before. -/
theorem warmed_spec (x : Indexer) (projects : List String) :
    (x.warmed projects).world = x.world ∧ ∀ project path,
      ((x.warmed projects).lexical.words? project path).isSome = true →
        (x.lexical.words? project path).isSome = true ∨
          ∃ r ∈ x.world.store.rows, r.project = project ∧ r.path = path := by
  induction projects generalizing x with
  | nil => exact ⟨rfl, fun _ _ h => .inl h⟩
  | cons q projects ih =>
    have hstep : (x.warmed (q :: projects)) = (((x.warm q).toOption.map (·.1)).getD x).warmed projects := rfl
    rw [hstep]
    cases hw : x.warm q with
    | error e => exact ih x
    | ok y =>
      obtain ⟨hworld, hwords⟩ := ih y.1
      unfold warm at hw
      split at hw
      · cases hw
      · rename_i records hrecords
        cases hw
        refine ⟨hworld, fun project path h => ?_⟩
        obtain h | h := hwords project path h
        · obtain h | ⟨rfl, r, hr, hpath⟩ := Index.isSome_indexRecords h
          · exact .inl h
          · obtain ⟨hr, hproject⟩ := Store.mem_projectRecords hrecords hr
            exact .inr ⟨r, hr, hproject, hpath⟩
        · exact .inr h

end Indexer

/-- A process over a store: what it is set up with, the projects whose words it fills from the store, and what it is
asked to do, in order. -/
structure Process where
  config : IndexerConfig
  health : Health.Config
  providers : List Provider
  /-- When it begins. -/
  now : Nat := 0
  warmed : List String := []
  ops : List Operation

namespace Process

/-- The index as the process begins. -/
def begin (p : Process) (s : Store) : Indexer :=
  ({ world := { now := p.now, providers := p.providers, health := { config := p.health }, store := s } } : Indexer).warmed
    p.warmed

/-- The index after all that the process was asked to do. -/
def reach (p : Process) (s : Store) : Indexer := (p.begin s).run p.config p.ops

/-- Operations on names and contents of the scope, and at least one slot for each provider. -/
structure Within (S : Scope) (p : Process) : Prop where
  slots : 1 ≤ p.health.defaultConcurrency
  ops : ∀ op ∈ p.ops, op.Within S p.config

end Process

/-- The store after some processes, one after the other. -/
def Store.served (s : Store) (processes : List Process) : Store :=
  processes.foldl (fun s p => (p.reach s).world.store) s

/-- Entries under identifiers and names of their own, and records that have a property. -/
structure Store.Holding (S : Scope) (P : Record → Prop) (s : Store) : Prop extends s.Keyed S where
  records : ∀ r ∈ s.rows, P r

variable {S : Scope} {p : Process}

theorem Store.holding_empty (hentries : s.entries = []) (hrows : s.rows = []) (hsane : s.Sane) : s.Holding S P := by
  refine ⟨⟨hsane, ?_, ?_⟩, ?_⟩
  · simp [hentries]
  · simp [hentries]
  · simp [hrows]

/-- All that a process can do keeps entries and records in order, whatever its providers answer. -/
theorem Process.reach_holding {k : Contract p.config.pipeline s.settings} (hp : p.Within S)
    (hk : k.floor p.providers { config := p.health }) (hkeys : ∀ r, P r → (r.project, r.path) ∈ S.keys)
    (hnew : ∀ q, S.Admits p.config q → ∀ chunk ∈ q.pieces p.config.pipeline, ∀ vector signature,
      P (recordOf q.file.project q.file chunk vector signature)) (h : s.Holding S P) :
    (p.reach s).Named k S ∧ ∀ r ∈ (p.reach s).world.store.rows, P r := by
  refine Indexer.run_preserves (P := fun x => x.Named k S ∧ ∀ r ∈ x.world.store.rows, P r)
    (fun x x' hx hP => ⟨hP.1.change hx, Indexer.rows_change hx hP.1
      (fun q hq chunk hchunk _ e _ vector _ => hnew q hq chunk hchunk vector e.signature) hP.2⟩) hp.ops ?_
  obtain ⟨hworld, hwords⟩ := Indexer.warmed_spec
    { world := { now := p.now, providers := p.providers, health := { config := p.health }, store := s } } p.warmed
  change (p.begin s).world = _ at hworld
  refine ⟨⟨?_, ?_, ?_, ?_, fun project path hw => ?_⟩, ?_⟩
  · rw [hworld]
    exact hk
  · rw [hworld]
    exact Health.Registry.idle_empty hp.slots
  · rw [hworld]
  · rw [hworld]
    exact h.toKeyed
  · obtain hw | ⟨r, hr, rfl, rfl⟩ := hwords project path hw
    · cases hw
    · exact hkeys r (h.records r hr)
  · rw [hworld]
    exact h.records

theorem Store.served_holding {processes : List Process} (hps : ∀ p ∈ processes, p.Within S)
    (hkeys : ∀ r, P r → (r.project, r.path) ∈ S.keys)
    (hnew : ∀ p ∈ processes, ∀ q, S.Admits p.config q → ∀ chunk ∈ q.pieces p.config.pipeline, ∀ vector signature,
      P (recordOf q.file.project q.file chunk vector signature)) (h : s.Holding S P) :
    (s.served processes).Holding S P := by
  induction processes generalizing s with
  | nil => exact h
  | cons p processes ih =>
    have hstep := p.reach_holding (k := .answering p.config.pipeline (p.providers.map Provider.signature) s.settings)
      (hps p List.mem_cons_self) rfl hkeys (hnew p List.mem_cons_self) h
    exact ih (fun q hq => hps q (List.mem_cons_of_mem p hq)) (fun q hq => hnew q (List.mem_cons_of_mem p hq))
      ⟨hstep.1.keyed, hstep.2⟩

end CodeIndex
