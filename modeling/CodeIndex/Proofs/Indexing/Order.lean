import CodeIndex.Proofs.Indexing.Failure
import CodeIndex.Proofs.Indexing.Process

/-!
The order of files. A store takes the records of one file and then its entry, whatever it holds of others, as long as no
two files share an identifier or a path. With the hashing provider alone every chunk gets the vector of its own text. So
what is left of some files can be told from all of them together: the order in which they come, how many are under way
at a time and how their chunks are cut into batches does not show.
-/

namespace CodeIndex

open CodeIndex.Embedding

variable {s s' t : Store} {file : FileEntry} {rs : List Record}

theorem Store.Distinct.putAll (h : s.Distinct) (rs : List Record) : (putAll s rs).1.Distinct := by
  induction rs generalizing s with
  | nil => exact h
  | cons r rs ih =>
    unfold Embedding.putAll
    split
    · rename_i hput
      exact ih (h.put hput)
    · exact h

/-- The records that a store takes replace those with their identifiers. -/
theorem rows_putAll_perm (h : s.Distinct) (hn : (rs.map (·.id)).Nodup) :
    (putAll s rs).1.rows.Perm (replacedBy (·.id) s.rows (s.taken rs)) := by
  induction rs generalizing s with
  | nil => simp [putAll, Store.taken]
  | cons r rs ih =>
    obtain ⟨hr, hn⟩ := List.nodup_cons.1 hn
    cases hput : s.put r with
    | error e => simp [putAll, Store.taken, hput]
    | ok s₁ =>
      simp only [putAll, Store.taken, hput]
      have hfirst : s₁.rows.Perm (replacedBy (·.id) s.rows [r]) :=
        (Store.rows_put_perm hput h.recordIds).trans replacedBy_singleton.symm
      refine (ih (h.put hput) hn).trans ((replacedBy_perm hfirst (.refl _)).trans ?_)
      rw [replacedBy_replacedBy]
      · rfl
      · intro x hx y hy he
        rw [List.mem_singleton.1 hx] at he
        exact hr (List.mem_map.2 ⟨y, (Store.taken_prefix _ _).subset hy, he.symm⟩)

/-- The entry that is filed for a file after its records, or why there is none. -/
def Store.filing (s : Store) (rs : List Record) (f : FileEntry) : Except StoreError FileEntry :=
  match (putAll s rs).2 with
  | .error e => .error e
  | .ok () => s.settings.filed s.entries f

/-- What a store makes of one file: its records are replaced as far as they are taken, and then its entry. -/
theorem persist_spec {result : Except StoreError Unit} (h : s.Distinct) (hn : (rs.map (·.id)).Nodup)
    (hp : persist s file rs = (s', result)) :
    s.Keeps s' ∧ s'.Distinct ∧ result = (s.filing rs file).map (fun _ => ()) ∧
      s'.rows.Perm (replacedBy (·.id) (s.rows.filter (·.fileId != file.id)) (s.taken rs)) ∧
      s'.entries.Perm (replacedBy (·.id) s.entries (s.filing rs file).toOption.toList) := by
  have hkeeps := Store.keeps_deleteRecords s file.id
  have hdeleted : (s.deleteRecords file.id).1.Distinct :=
    h.filtered (fun _ => true) _ (by simp) (Store.rows_deleteRecords s file.id) hkeeps
  have hdistinct := hdeleted.putAll rs
  have hkeeps' := hkeeps.trans (keeps_putAll (s.deleteRecords file.id).1 rs)
  have hentries := entries_putAll (s.deleteRecords file.id).1 rs
  have hrows := rows_putAll_perm hdeleted hn
  obtain ⟨htaken, hresult⟩ := putAll_congr hkeeps.settings rs
  rw [Store.rows_deleteRecords, htaken] at hrows
  rw [Store.entries_deleteRecords] at hentries
  unfold persist at hp
  unfold Store.filing
  rw [← hresult]
  generalize putAll (s.deleteRecords file.id).1 rs = q at *
  obtain ⟨s₁, r⟩ := q
  cases r with
  | error e =>
    cases hp
    exact ⟨hkeeps', hdistinct, rfl, hrows, by simp [hentries, Except.toOption]⟩
  | ok u =>
    dsimp only at *
    have hfile := Store.putFile_filed hdistinct.ids file
    rw [hentries, hkeeps'.settings] at hfile
    obtain ⟨g, s₂, hfiled, hput, he⟩ | ⟨e, hfiled, hput⟩ := hfile
    · rw [hput] at hp
      cases hp
      rw [hfiled]
      refine ⟨hkeeps'.trans (Store.keeps_putFile hput), hdistinct.putFile hput, rfl, ?_, ?_⟩
      · rw [Store.rows_putFile hput]
        exact hrows
      · rw [he]
        exact (Store.withEntry_perm h.ids).trans replacedBy_singleton.symm
    · rw [hput] at hp
      cases hp
      rw [hfiled]
      exact ⟨hkeeps', hdistinct, rfl, hrows, by simp [hentries, Except.toOption]⟩

namespace Embedding

variable {c c' : PipelineConfig} {dims : Nat} {σ : Store.Settings} {project : String} {files files' : List Prepared}
  {p q : Prepared} {o : Outcome} {records : Prepared → List Record} {healthy : Health.Registry → Prop}

/-- The records of a file in the vectors of the hashing provider, each chunk in that of its own text. -/
def Prepared.hashedRows (c : PipelineConfig) (dims : Nat) (project : String) (p : Prepared) : List Record :=
  (p.pieces c).map fun chunk => recordOf project p.file chunk
    (hashEmbed (Chunk.contextualize p.file.path p.file.language chunk) (max dims 1)) (Provider.hashing dims).signature

/-- However chunks are cut into batches, their vectors find them again. -/
theorem records_hashed (c : PipelineConfig) (dims : Nat) (project : String) (p : Prepared) :
    (Job.ofPrepared c 0 p).records project ((p.groups c).map (hashed dims)) = p.hashedRows c dims project := by
  have hvectors : (((p.groups c).map (hashed dims)).flatMap fun e => e.vectors.map (·, e.signature)) =
      (p.pieces c).map fun chunk => (hashEmbed (Chunk.contextualize p.file.path p.file.language chunk) (max dims 1),
        (Provider.hashing dims).signature) := by
    have hgroup : ∀ texts : List String, (hashed dims texts).vectors.map (·, (hashed dims texts).signature) =
        texts.map fun text => (hashEmbed text (max dims 1), (Provider.hashing dims).signature) := by
      intro texts
      simp only [hashed, List.map_map]
      rfl
    rw [List.flatMap_map]
    simp only [hgroup]
    rw [← List.map_flatMap, List.flatMap_id', Prepared.groups, flatten_grouped (Nat.le_max_left ..), List.map_map]
    rfl
  have hzip : ∀ {β : Type} (f : Chunk → β), (p.pieces c).zip ((p.pieces c).map f) =
      (p.pieces c).map fun chunk => (chunk, f chunk) := fun f => by
    simpa using List.zip_map' (f := id) (g := f) (l := p.pieces c)
  unfold Job.records
  dsimp only
  rw [hvectors]
  change ((p.pieces c).zip _).map _ = _
  rw [hzip, List.map_map]
  rfl

/-- What becomes of a file whose chunks all have vectors, by what becomes of its records and its entry. -/
def Prepared.outcome (c : PipelineConfig) (records : List Record) (p : Prepared) : Except StoreError Unit → Outcome
  | .error e => { path := p.file.path, chunks := (p.pieces c).length, error := some (.store e) }
  | .ok () =>
    { path := p.file.path, chunks := (p.pieces c).length, embedded := records.length,
      provider := records.getLast?.map (·.provider) }

/-- A chain of the hashing provider alone leaves it to the store how a file ends. -/
theorem ends_hashing {hh : Health.Registry.Unharmed Provider.localName healthy}
    (h : p.Ends (.hashingWhile hh c dims σ) project s s' o) :
    ∃ result, persist s p.file (p.hashedRows c dims project) = (s', result) ∧
      o = p.outcome c (p.hashedRows c dims project) result := by
  obtain ⟨results, ha, hend⟩ := h
  have hresults := results_hashing ha
  unfold Job.finish at hend
  dsimp only at hend
  split at hend
  · rename_i he
    rw [hresults] at he
    obtain ⟨_, -, hcase⟩ := List.mem_map.1 (mem_of_errors he)
    cases hcase
  · rw [hresults, filterMap_toOption_ok, records_hashed] at hend
    split at hend <;> rename_i hpersist <;> cases hend <;> exact ⟨_, hpersist, rfl⟩

/-- Files that do not meet: neither under one identifier, nor under one path, nor in the identifier of a record. -/
structure Apart (records : Prepared → List Record) (p q : Prepared) : Prop where
  ids : p.file.id ≠ q.file.id
  paths : normalizePath p.file.path ≠ normalizePath q.file.path
  records : ∀ x ∈ records p, ∀ y ∈ records q, x.id ≠ y.id

theorem Apart.symm (h : Apart records p q) : Apart records q p :=
  ⟨h.ids.symm, h.paths.symm, fun x hx y hy => (h.records y hy x hx).symm⟩

/-- The entries that a store files for some files. -/
def filings (records : Prepared → List Record) (s : Store) (files : List Prepared) : List FileEntry :=
  files.flatMap fun p => (s.filing (records p) p.file).toOption.toList

/-- What some files leave in a store, told from all of them together. -/
structure Left (records : Prepared → List Record) (s : Store) (files : List Prepared) (s' : Store) : Prop where
  keeps : s.Keeps s'
  distinct : s'.Distinct
  rows : s'.rows.Perm (replacedBy (·.id) (s.rows.filter fun r => decide (r.fileId ∉ files.map (·.file.id)))
    (files.flatMap fun p => s.taken (records p)))
  entries : s'.entries.Perm (replacedBy (·.id) s.entries (filings records s files))

/-- The order of the files is of no account. -/
theorem Left.perm (h : Left records s files s') (hp : files.Perm files') : Left records s files' s' where
  keeps := h.keeps
  distinct := h.distinct
  rows := by
    have hids : ∀ r : Record, decide (r.fileId ∉ files.map (·.file.id)) = decide (r.fileId ∉ files'.map (·.file.id)) :=
      fun r => by rw [decide_eq_decide, (hp.map _).mem_iff]
    have hrows := h.rows
    rw [List.filter_congr fun r _ => hids r] at hrows
    exact hrows.trans (replacedBy_perm (.refl _) (hp.flatMap_right _))
  entries := h.entries.trans (replacedBy_perm (.refl _) (hp.flatMap_right _))

theorem mem_filing {f g : FileEntry} : g ∈ (s.filing rs f).toOption.toList ↔ s.filing rs f = .ok g := by
  cases s.filing rs f <;> simp [Except.toOption, eq_comm]

theorem filing_ok {f g : FileEntry} (h : s.filing rs f = .ok g) : s.settings.filed s.entries f = .ok g := by
  unfold Store.filing at h
  split at h
  · cases h
  · exact h

theorem mem_filings {g : FileEntry} :
    g ∈ filings records s files ↔ ∃ p ∈ files, s.filing (records p) p.file = .ok g := by
  unfold filings
  rw [List.mem_flatMap]
  exact exists_congr fun p => and_congr_right fun _ => mem_filing

theorem Left.mem_entries {g : FileEntry} (h : Left records s files s') (hapart : ∀ q ∈ files, Apart records q p)
    (hg : g.id = p.file.id) : g ∈ s'.entries ↔ g ∈ s.entries := by
  have hnone : g.id ∉ (filings records s files).map (·.id) := by
    intro hm
    obtain ⟨x, hx, he⟩ := List.mem_map.1 hm
    obtain ⟨q, hq, hx⟩ := mem_filings.1 hx
    exact (hapart q hq).ids ((Store.filed_cases (filing_ok hx)).1.symm.trans (he.trans hg))
  rw [h.entries.mem_iff, mem_replacedBy]
  exact ⟨fun hm => hm.elim And.left fun hm => absurd (List.mem_map_of_mem hm) hnone, fun hm => .inl ⟨hm, hnone⟩⟩

/-- In a table an entry stays under its project and its path, so the files before take no other file's path. -/
theorem Left.path_taken (h : Left records s files s') (hs : s.Distinct) (hapart : ∀ q ∈ files, Apart records q p)
    (hbounded : s.settings.bounded = true) :
    (∃ g ∈ s'.entries, g.project = p.file.project ∧ g.path = normalizePath p.file.path) ↔
      ∃ g ∈ s.entries, g.project = p.file.project ∧ g.path = normalizePath p.file.path := by
  constructor
  · rintro ⟨g, hg, hproject, hpath⟩
    rw [h.entries.mem_iff, mem_replacedBy] at hg
    obtain ⟨hg, -⟩ | hg := hg
    · exact ⟨g, hg, hproject, hpath⟩
    · obtain ⟨q, hq, hg⟩ := mem_filings.1 hg
      obtain ⟨-, hcases⟩ := Store.filed_cases (filing_ok hg)
      obtain ⟨x, hx, hproject', hpath'⟩ | ⟨-, -, hpath'⟩ := hcases hbounded
      · exact ⟨x, List.mem_of_find?_eq_some hx, hproject'.symm.trans hproject, hpath'.symm.trans hpath⟩
      · exact absurd (hpath'.symm.trans hpath) (hapart q hq).paths
  · rintro ⟨g, hg, hproject, hpath⟩
    by_cases hm : g.id ∈ (filings records s files).map (·.id)
    · -- the entry was replaced by one that keeps its project and its path
      obtain ⟨y, hy, he⟩ := List.mem_map.1 hm
      obtain ⟨q, hq, hfiling⟩ := mem_filings.1 hy
      obtain ⟨hyid, hcases⟩ := Store.filed_cases (filing_ok hfiling)
      have hfind := (Store.find?_id hs.ids).2 ⟨hg, he.symm.trans hyid⟩
      rw [hfind] at hcases
      obtain ⟨x, hx, hproject', hpath'⟩ | ⟨hx, -⟩ := hcases hbounded
      · cases hx
        refine ⟨y, ?_, hproject'.trans hproject, hpath'.trans hpath⟩
        rw [h.entries.mem_iff, mem_replacedBy]
        exact .inr hy
      · cases hx
    · refine ⟨g, ?_, hproject, hpath⟩
      rw [h.entries.mem_iff, mem_replacedBy]
      exact .inl ⟨hg, hm⟩

/-- What some files leave does not change what is made of the entry of another one. -/
theorem Left.filing_eq (h : Left records s files s') (hs : s.Distinct) (hapart : ∀ q ∈ files, Apart records q p) :
    s'.filing (records p) p.file = s.filing (records p) p.file := by
  unfold Store.filing
  rw [(putAll_congr h.keeps.settings (records p)).2, h.keeps.settings,
    Store.filed_congr h.distinct.ids hs.ids (fun _ => h.mem_entries hapart) (h.path_taken hs hapart)]

/-- One file more leaves its own records and its own entry. -/
theorem Left.persisted {result : Except StoreError Unit} (h : Left records s files s') (hs : s.Distinct)
    (howned : ∀ p, ∀ r ∈ records p, r.fileId = p.file.id) (hn : ((records p).map (·.id)).Nodup)
    (hapart : ∀ q ∈ files, Apart records q p) (hp : persist s' p.file (records p) = (t, result)) :
    Left records s (files ++ [p]) t ∧ result = (s.filing (records p) p.file).map (fun _ => ()) := by
  obtain ⟨hkeeps, hdistinct, hresult, hrows, hentries⟩ := persist_spec h.distinct hn hp
  have hfiling := h.filing_eq hs hapart
  rw [hfiling] at hresult hentries
  rw [(putAll_congr h.keeps.settings (records p)).1] at hrows
  refine ⟨⟨h.keeps.trans hkeeps, hdistinct, ?_, ?_⟩, hresult⟩
  · have hnew : ∀ r ∈ files.flatMap fun q => s.taken (records q), (r.fileId != p.file.id) = true := by
      intro r hr
      obtain ⟨q, hq, hr⟩ := List.mem_flatMap.1 hr
      rw [bne_iff_ne, howned q r ((Store.taken_prefix _ _).subset hr)]
      exact (hapart q hq).ids
    have hold : (s.rows.filter fun r => decide (r.fileId ∉ files.map (·.file.id))).filter (·.fileId != p.file.id) =
        s.rows.filter fun r => decide (r.fileId ∉ (files ++ [p]).map (·.file.id)) := by
      rw [List.filter_filter]
      refine List.filter_congr fun r _ => ?_
      rw [Bool.eq_iff_iff]
      simp [and_comm]
    refine hrows.trans ((replacedBy_perm (h.rows.filter _) (.refl _)).trans (.of_eq ?_))
    rw [filter_replacedBy hnew, hold]
    rw [replacedBy_replacedBy, List.flatMap_append, List.flatMap_singleton]
    intro x hx y hy
    obtain ⟨q, hq, hx⟩ := List.mem_flatMap.1 hx
    exact (hapart q hq).records x ((Store.taken_prefix _ _).subset hx) y ((Store.taken_prefix _ _).subset hy)
  · refine hentries.trans ((replacedBy_perm h.entries (.refl _)).trans (.of_eq ?_))
    rw [replacedBy_replacedBy]
    · simp [filings]
    · intro x hx y hy he
      obtain ⟨q, hq, hx⟩ := mem_filings.1 hx
      have hy := (Store.filed_cases (filing_ok (mem_filing.1 hy))).1
      exact (hapart q hq).ids ((Store.filed_cases (filing_ok hx)).1.symm.trans (he.trans hy))

/-- What becomes of a file in the vectors of the hashing provider. -/
def Prepared.hashedOutcome (c : PipelineConfig) (dims : Nat) (project : String) (s : Store) (p : Prepared) : Outcome :=
  p.outcome c (p.hashedRows c dims project) ((s.filing (p.hashedRows c dims project) p.file).map fun _ => ())

/-- Where files end one after the other, they leave what all of them together leave. -/
theorem Traced.left {hh : Health.Registry.Unharmed Provider.localName healthy} {log : List (Prepared × Outcome)}
    (h : Traced (.hashingWhile hh c dims σ) project s log s') (hs : s.Distinct)
    (hn : ∀ p ∈ log.map (·.1), ((p.hashedRows c dims project).map (·.id)).Nodup)
    (hapart : (log.map (·.1)).Pairwise (Apart (Prepared.hashedRows c dims project))) :
    Left (Prepared.hashedRows c dims project) s (log.map (·.1)) s' ∧
      log.map (·.2) = (log.map (·.1)).map (Prepared.hashedOutcome c dims project s) := by
  induction h with
  | start => exact ⟨⟨.refl s, hs, by simp, by simp [filings]⟩, rfl⟩
  | widen _ hw ih =>
    obtain ⟨hleft, houtcomes⟩ := ih hn hapart
    obtain ⟨hrows, hentries, hkeeps⟩ := Store.widenings_spec hw hleft.distinct.sane
    exact ⟨⟨hleft.keeps.trans hkeeps, hleft.distinct.kept hentries hrows hkeeps, hrows ▸ hleft.rows,
      hentries ▸ hleft.entries⟩, houtcomes⟩
  | @ended log s₁ s₂ p o _ hend ih =>
    rw [List.map_append] at hn hapart ⊢
    obtain ⟨hbefore, -, hmeet⟩ := List.pairwise_append.1 hapart
    obtain ⟨hleft, houtcomes⟩ := ih (fun q hq => hn q (List.mem_append_left _ hq)) hbefore
    obtain ⟨result, hpersist, rfl⟩ := ends_hashing hend
    have howned : ∀ q : Prepared, ∀ r ∈ q.hashedRows c dims project, r.fileId = q.file.id := by
      intro q r hr
      obtain ⟨chunk, -, rfl⟩ := List.mem_map.1 hr
      rfl
    obtain ⟨hleft', rfl⟩ := hleft.persisted hs howned (hn p (List.mem_append_right _ List.mem_cons_self))
      (fun q hq => hmeet q hq p List.mem_cons_self) hpersist
    refine ⟨hleft', ?_⟩
    rw [List.map_append, List.map_append, houtcomes]
    rfl

/-- Embedding some files with the hashing provider leaves what all of them together leave. -/
theorem generate_left {w : World} {provider : Provider} (hproviders : w.providers = [provider])
    (hlocal : IsHashing dims provider) (hidle : w.health.Idle) (hhealthy : w.health.Available Provider.localName)
    (hs : w.store.Distinct) (hn : ∀ p ∈ files, ((p.hashedRows c dims project).map (·.id)).Nodup)
    (hapart : files.Pairwise (Apart (Prepared.hashedRows c dims project))) :
    Left (Prepared.hashedRows c dims project) w.store files (w.generate c project files false).1.store ∧
      (w.generate c project files false).2.outcomes.Perm
        (files.map (Prepared.hashedOutcome c dims project w.store)) := by
  obtain ⟨log, htraced, hlog, -, -, -, hall⟩ := generate_traced
    (.hashingWhile (Health.Registry.unharmed_available Provider.localName) c dims w.store.settings)
    ⟨⟨provider, hproviders, hlocal⟩, hhealthy⟩ hs.sane project files
  obtain ⟨-, hperm⟩ := hall hidle
  obtain ⟨hleft, houtcomes⟩ := htraced.left hs (fun p hp => hn p (hperm.mem_iff.1 hp))
    ((hperm.pairwise_iff Apart.symm).2 hapart)
  rw [← hlog, houtcomes]
  exact ⟨hleft.perm hperm, hperm.map _⟩

/-- A run that looks at the model first is a run over the store as it was, or cleared. -/
theorem generate_verified (w : World) (project : String) (verify : Bool) :
    ∃ w₁ : World, w₁.providers = w.providers ∧ w₁.health = w.health ∧
      (w₁.store = w.store ∨ w₁.store = (w.store.clear project).1) ∧ ∀ c files,
        (w.generate c project files verify).1 = (w₁.generate c project files false).1 ∧
          (w.generate c project files verify).2.outcomes = (w₁.generate c project files false).2.outcomes := by
  cases verify with
  | false => exact ⟨w, rfl, rfl, .inl rfl, fun _ _ => ⟨rfl, rfl⟩⟩
  | true =>
    by_cases hm : w.needsMigration project = true
    · refine ⟨{ w with store := (w.store.clear project).1 }, rfl, rfl, .inr rfl, fun c files => ?_⟩
      unfold World.generate World.ensureModel
      simp [hm]
    · refine ⟨w, rfl, rfl, .inl rfl, fun c files => ?_⟩
      unfold World.generate World.ensureModel
      simp [hm]

/-- Where no two keys of chunks have the same identifier, files with paths of their own do not meet. -/
theorem apart_of_keys {keys : Set String} (hkeys : Set.InjOn (Digest.Uuid.ofName idSpace) keys)
    (hp : ∀ chunk ∈ p.pieces c, chunkKey project p.file.path chunk.index ∈ keys)
    (hq : ∀ chunk ∈ q.pieces c, chunkKey project q.file.path chunk.index ∈ keys) (hid : p.file.id ≠ q.file.id)
    (hpath : normalizePath p.file.path ≠ normalizePath q.file.path) :
    Apart (Prepared.hashedRows c dims project) p q := by
  refine ⟨hid, hpath, fun x hx y hy he => ?_⟩
  obtain ⟨chunk, hchunk, rfl⟩ := List.mem_map.1 hx
  obtain ⟨chunk', hchunk', rfl⟩ := List.mem_map.1 hy
  exact hpath (chunkKey_inj (hkeys (hp chunk hchunk) (hq chunk' hchunk') he)).1

/-- Where no two keys of its chunks have the same identifier, the records of a file are under identifiers of their own. -/
theorem nodup_chunkIds {keys : Set String} (hkeys : Set.InjOn (Digest.Uuid.ofName idSpace) keys)
    (hp : ∀ chunk ∈ p.pieces c, chunkKey project p.file.path chunk.index ∈ keys) :
    ((p.pieces c).map fun chunk => chunkId project p.file.path chunk.index).Nodup := by
  have hindex : ((p.pieces c).map (·.index)).Nodup := by
    rw [Prepared.pieces, Chunk.index_splitOversized]
    exact List.nodup_range
  refine List.Nodup.map_on (fun x hx y hy he => ?_) hindex.of_map
  exact List.inj_on_of_nodup_map hindex hx hy (chunkKey_inj (hkeys (hp x hx) (hp y hy) he)).2

theorem nodup_hashedRows {keys : Set String} (hkeys : Set.InjOn (Digest.Uuid.ofName idSpace) keys)
    (hp : ∀ chunk ∈ p.pieces c, chunkKey project p.file.path chunk.index ∈ keys) :
    ((p.hashedRows c dims project).map (·.id)).Nodup := by
  rw [Prepared.hashedRows, List.map_map]
  exact nodup_chunkIds hkeys hp

/-- Where no two keys of chunks have the same identifier, files with paths and identifiers of their own do not meet. -/
theorem pairwise_apart {keys : Set String} (hkeys : Set.InjOn (Digest.Uuid.ofName idSpace) keys)
    (hp : ∀ p ∈ files, ∀ chunk ∈ p.pieces c, chunkKey project p.file.path chunk.index ∈ keys)
    (hids : (files.map (·.file.id)).Nodup) (hpaths : (files.map fun p => normalizePath p.file.path).Nodup) :
    files.Pairwise (Apart (Prepared.hashedRows c dims project)) := by
  refine List.Pairwise.imp_of_mem (fun {p q} hmem hmem' hh => ?_)
    ((List.pairwise_map.1 hids).and (List.pairwise_map.1 hpaths))
  exact apart_of_keys hkeys (hp p hmem) (hp q hmem') hh.1 hh.2

theorem hashedRows_congr {c' : PipelineConfig} (h : Prepared.pieces c' = Prepared.pieces c) :
    Prepared.hashedRows c' dims project = Prepared.hashedRows c dims project := by
  unfold Prepared.hashedRows
  rw [h]

/-- How a file ends does not depend on how its chunks are cut into batches. -/
theorem hashedOutcome_congr {c' : PipelineConfig} (h : Prepared.pieces c' = Prepared.pieces c) :
    Prepared.hashedOutcome c' dims project s = Prepared.hashedOutcome c dims project s := by
  unfold Prepared.hashedOutcome Prepared.outcome
  rw [hashedRows_congr h, h]

theorem total_perm {ms ns : List Nat} (h : ms.Perm ns) : total ms = total ns := h.sum_eq

/-- Embedding some files with one healthy hashing provider leaves the same, and tells the same, in whatever order they
come, however many texts go into a batch, and however many files and batches are under way at a time. -/
theorem generate_perm (c c' : PipelineConfig) (dims : Nat) (w : World) (provider : Provider) (project : String)
    (files files' : List Prepared) (verify : Bool)
    (hsize : c'.maxChunkSize = c.maxChunkSize) (hoverlap : c'.overlapLines = c.overlapLines)
    (hproviders : w.providers = [provider]) (hlocal : IsHashing dims provider) (hidle : w.health.Idle)
    (hhealthy : w.health.Available Provider.localName) (hstore : w.store.Reached) (hperm : files.Perm files')
    (hids : (files.map (·.file.id)).Nodup) (hpaths : (files.map fun p => normalizePath p.file.path).Nodup)
    (hkeys : Set.InjOn (Digest.Uuid.ofName idSpace)
      {key | ∃ p ∈ files, ∃ chunk ∈ p.pieces c, key = chunkKey project p.file.path chunk.index}) :
    let left := w.generate c project files verify
    let left' := w.generate c' project files' verify
    left.1.store.rows.Perm left'.1.store.rows ∧ left.1.store.entries.Perm left'.1.store.entries ∧
      left.2.outcomes.Perm left'.2.outcomes ∧ left.2.totalChunks = left'.2.totalChunks ∧
      left.2.embedded = left'.2.embedded := by
  intro left left'
  obtain ⟨w₁, hproviders₁, hhealth₁, hstore₁, hrun⟩ := generate_verified w project verify
  have hs : w₁.store.Distinct := by
    obtain he | he := hstore₁ <;> rw [he]
    · exact hstore.distinct
    · exact (hstore.serve (.clear project)).distinct
  have hmem : ∀ p ∈ files, ∀ chunk ∈ p.pieces c, chunkKey project p.file.path chunk.index ∈
      {key | ∃ p ∈ files, ∃ chunk ∈ p.pieces c, key = chunkKey project p.file.path chunk.index} :=
    fun p hp chunk hchunk => ⟨p, hp, chunk, hchunk, rfl⟩
  have hn : ∀ p ∈ files, ((p.hashedRows c dims project).map (·.id)).Nodup := fun p hp =>
    nodup_hashedRows hkeys (hmem p hp)
  have hapart : files.Pairwise (Apart (Prepared.hashedRows c dims project)) := pairwise_apart hkeys hmem hids hpaths
  obtain ⟨hleft, houtcomes⟩ := generate_left (hproviders₁.trans hproviders) hlocal (hhealth₁ ▸ hidle)
    (hhealth₁ ▸ hhealthy) hs hn hapart
  -- the other way round, and in other batches
  have hpieces : Prepared.pieces c' = Prepared.pieces c := by
    unfold Prepared.pieces
    rw [hsize, hoverlap]
  have hsame : Prepared.hashedRows c' dims project = Prepared.hashedRows c dims project := hashedRows_congr hpieces
  have hn' : ∀ p ∈ files', ((p.hashedRows c' dims project).map (·.id)).Nodup := by
    rw [hsame]
    exact fun p hp => hn p (hperm.mem_iff.2 hp)
  have hapart' : files'.Pairwise (Apart (Prepared.hashedRows c' dims project)) := by
    rw [hsame]
    exact (hperm.pairwise_iff Apart.symm).1 hapart
  obtain ⟨hleft', houtcomes'⟩ := generate_left (hproviders₁.trans hproviders) hlocal (hhealth₁ ▸ hidle)
    (hhealth₁ ▸ hhealthy) hs hn' hapart'
  rw [hsame] at hleft'
  rw [hashedOutcome_congr hpieces] at houtcomes'
  obtain ⟨hworld, htold⟩ := hrun c files
  obtain ⟨hworld', htold'⟩ := hrun c' files'
  have hall : left.2.outcomes.Perm left'.2.outcomes := by
    rw [show left.2.outcomes = _ from htold, show left'.2.outcomes = _ from htold']
    exact houtcomes.trans ((hperm.map _).trans houtcomes'.symm)
  rw [show left.1 = _ from hworld, show left'.1 = _ from hworld']
  have hleft := hleft.perm hperm
  exact ⟨hleft.rows.trans hleft'.rows.symm, hleft.entries.trans hleft'.entries.symm, hall,
    total_perm (hall.map _), total_perm (hall.map _)⟩

/-- A file of some lines, each a chunk of its own. -/
def linesAt (id path : String) (lines : List String) : Prepared where
  file :=
    { id, project := "p", path, hash := id, language := "markdown", size := 0, lineCount := lines.length,
      modifiedMs := 0 }
  chunks := lines.zipIdx.map fun (line, i) => ⟨line, i + 1, i + 1, estimateTokens line, none, none, i⟩

/-- The hashing provider alone, over some store. -/
def localOnly (store : Store) : World where
  providers := [.hashing 8]
  health := { config := ⟨3, 3600000, 3, 60000, 8⟩ }
  store

theorem available_localOnly (store : Store) : (localOnly store).health.Available Provider.localName :=
  (Health.Registry.unharmed_untroubled Provider.localName).available ⟨rfl, rfl⟩

/-- Two files, one of them with two chunks, over a store with a record of before: in one batch each at the same time,
and then the other way round in batches of one text, one at a time. -/
theorem generate_perm_two :
    let w := localOnly (((Store.table {}).serve (.put (Store.noteRecord 8))).1.serve (.putFile Store.note)).1
    let one : PipelineConfig :=
      { Config.defaultEmbedding with batchSize := 1, fileConcurrency := 1, batchConcurrency := 1 }
    let a := linesAt "x" "a.md" ["one", "two"]
    let b := linesAt "y" "b.md" ["three"]
    let left := w.generate Config.defaultEmbedding "p" [a, b] true
    let left' := w.generate one "p" [b, a] true
    left.1.store.rows.Perm left'.1.store.rows ∧ left.1.store.entries.Perm left'.1.store.entries ∧
      left.2.outcomes.Perm left'.2.outcomes ∧ left.2.totalChunks = left'.2.totalChunks ∧
      left.2.embedded = left'.2.embedded := by
  intro w one a b
  have hmem : ∀ p ∈ [a, b], ∀ chunk ∈ p.pieces Config.defaultEmbedding, chunkKey "p" p.file.path chunk.index ∈
      [chunkKey "p" "a.md" 0, chunkKey "p" "a.md" 1, chunkKey "p" "b.md" 0] := by decide +kernel
  refine generate_perm Config.defaultEmbedding one 8 w (.hashing 8) "p" [a, b] [b, a] true rfl rfl rfl ⟨0, 0, rfl⟩
    (Health.Registry.idle_empty (by decide)) (available_localOnly _) (.serve _ (.serve _ (.table none)))
    (.swap b a []) (by decide) (by decide +kernel) ?_
  rintro _ ⟨p, hp, chunk, hchunk, rfl⟩ _ ⟨q, hq, chunk', hchunk', rfl⟩
  exact List.inj_on_of_nodup_map nodup_ids_of_two (hmem p hp chunk hchunk) (hmem q hq chunk' hchunk')

/-- Two files with identifiers of their own under the same path. -/
def sharing : List Prepared := [linesAt "x" "a.md" ["one"], linesAt "y" "a.md" ["two"]]

/-- Where two files share a path, the record of the one that comes last is left. -/
theorem order_shows :
    ¬∀ (c : PipelineConfig) (dims : Nat) (w : World) (project : String) (files files' : List Prepared),
      w.providers = [.hashing dims] → w.health.Idle → w.health.Available Provider.localName → w.store.Reached →
      w.store.settings.Admits (max dims 1) → files.Perm files' → (files.map (·.file.id)).Nodup →
        (w.generate c project files false).1.store.rows.Perm (w.generate c project files' false).1.store.rows := by
  intro h
  have hfirst : ((Run.start Config.defaultEmbedding (localOnly (.memory {})) sharing).ends? Config.defaultEmbedding "p"
      10).map (fun r => r.floor.store.rows.map (·.fileId)) = some ["y"] := by decide +kernel
  have hsecond : ((Run.start Config.defaultEmbedding (localOnly (.memory {})) sharing.reverse).ends?
      Config.defaultEmbedding "p" 10).map (fun r => r.floor.store.rows.map (·.fileId)) = some ["x"] := by
    decide +kernel
  obtain ⟨r, hr, hy⟩ := Option.map_eq_some_iff.1 hfirst
  obtain ⟨r', hr', hx⟩ := Option.map_eq_some_iff.1 hsecond
  have hsame := h Config.defaultEmbedding 8 (localOnly (.memory {})) "p" sharing sharing.reverse rfl
    (Health.Registry.idle_empty (by decide)) (available_localOnly _) (.memory none)
    ⟨nofun, nofun⟩ (List.reverse_perm sharing).symm (by decide)
  rw [generate_of_ends hr, generate_of_ends hr'] at hsame
  have hids := hsame.map (·.fileId)
  rw [show r.floor.toWorld.store.rows.map (·.fileId) = _ from hy,
    show r'.floor.toWorld.store.rows.map (·.fileId) = _ from hx] at hids
  exact absurd (List.singleton_perm_singleton.1 hids) (by decide)

end Embedding

end CodeIndex
