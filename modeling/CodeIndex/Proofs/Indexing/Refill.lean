import CodeIndex.Proofs.Indexing.Replacement
import CodeIndex.Proofs.Indexing.Warming

/-!
The words of a file that was embedded, filled from its records. They are those of its chunks, in their order, as the file
itself gives them, but for chunks without text: these have records, and the file gives no words for them.
-/

namespace CodeIndex

open CodeIndex.Embedding Files Lexical

variable {c : PipelineConfig} {project : String} {p : Prepared} {answers : List Embedded} {s s₁ s₂ : Store}

/-- Read back, the records of a path are those of the file that was embedded. -/
theorem Embedding.Prepared.Persists.records_path (h : p.Persists c project answers s s₁ s₂)
    (hfile : p.file.id = fileId project p.file.path) (hrows : ∀ r ∈ s.rows, r.fileId = fileId r.project r.path) :
    (byPosition (s₂.rows.filter (·.project == project))).filter (·.path == p.file.path) =
      (Job.ofPrepared c 0 p).records project answers := by
  refine filter_byPosition_of_perm ?_ (h.fills.numbered project)
  rw [List.filter_filter]
  refine (h.replaces.1.filter _).trans (.of_eq ?_)
  have hothers : (s₁.rows.filter (·.fileId != p.file.id)).filter
      (fun r => r.path == p.file.path && r.project == project) = [] := by
    refine List.filter_eq_nil_iff.2 fun r hr hplace => ?_
    obtain ⟨hr, hne⟩ := List.mem_filter.1 hr
    rw [Bool.and_eq_true, beq_iff_eq, beq_iff_eq] at hplace
    refine bne_iff_ne.1 hne ?_
    rw [hrows r (h.rows ▸ hr), hplace.1, hplace.2, hfile]
  have hown : ∀ r ∈ (Job.ofPrepared c 0 p).records project answers,
      (r.path == p.file.path && r.project == project) = true := by
    intro r hr
    obtain ⟨x, -, rfl⟩ := List.mem_map.1 hr
    rw [Bool.and_eq_true]
    exact ⟨beq_self_eq_true _, beq_self_eq_true _⟩
  rw [List.filter_append, hothers, List.filter_eq_self.2 hown, List.nil_append]

/-- Records that could all be read back can be read back with those of another file. -/
theorem Embedding.Prepared.Persists.readable (h : p.Persists c project answers s s₁ s₂)
    (hsizes : ∀ r ∈ s.rows, r.vector.size = r.dimensions) : ∀ r ∈ s₂.rows, r.vector.size = r.dimensions := by
  intro r hr
  rcases List.mem_append.1 (h.replaces.1.mem_iff.1 hr) with hr | hr
  · exact hsizes r (h.rows ▸ List.mem_of_mem_filter hr)
  · obtain ⟨x, -, rfl⟩ := List.mem_map.1 hr
    rfl

/-- Words of a path that were filled from records, and those of the file itself: both are the entries of its chunks, of
the file itself only for chunks with text. -/
structure Lexical.Index.Refilled (project path : String) (chunks : List Chunk) (warmed fresh : Index) : Prop where
  recorded : warmed.words? project path = some (chunks.map (Entry.ofChunk path))
  read : (fresh.words? project path).map (·.filter (·.source == .chunk)) =
    some (worded (chunks.map (Entry.ofChunk path)))
  same_iff : warmed.words? project path = (fresh.words? project path).map (·.filter (·.source == .chunk)) ↔
    ∀ chunk ∈ chunks, chunk.content ≠ ""

theorem Lexical.Index.refilled {path : String} {chunks : List Chunk} {warmed fresh : Index}
    (hwarmed : warmed.words? project path = some (chunks.map (Entry.ofChunk path)))
    (hfresh : (fresh.words? project path).map (·.filter (·.source == .chunk)) =
      some (worded (chunks.map (Entry.ofChunk path)))) : Refilled project path chunks warmed fresh := by
  refine ⟨hwarmed, hfresh, ?_⟩
  rw [hwarmed, hfresh, Option.some_inj, eq_comm, worded, List.filter_eq_self, List.forall_mem_map]
  refine forall₂_congr fun chunk _ => ?_
  simp [Entry.ofChunk]

/-- A file was embedded whose chunks are not too long. The records in the store then fill the words of its path with an
entry for each chunk, in their order. These are the file's own entries of chunks if and only if every chunk has text. -/
theorem embedded_refilled (c : IndexerConfig) (w : World) (project : String) (f : Discovered)
    (language : Language) (o : Outcome) (hs : w.store.Distinct)
    (hrows : ∀ r ∈ w.store.rows, r.id = chunkId r.project r.path r.index ∧ r.fileId = fileId r.project r.path)
    (hsizes : ∀ r ∈ w.store.rows, r.vector.size = r.dimensions)
    (hkeys : Set.InjOn (Digest.Uuid.ofName idSpace)
      {key | (∃ r ∈ w.store.rows, key = chunkKey r.project r.path r.index) ∨
        ∃ chunk ∈ (c.prepared project f language).pieces c.pipeline,
          key = chunkKey project f.rel chunk.index})
    (hshort : ∀ chunk ∈ (Chunk.parseBytes language f.content (c.parser language)).chunks,
      chunk.content.length ≤ c.pipeline.maxChunkSize)
    (ho : o ∈ (w.generate c.pipeline project [c.prepared project f language] false).2.outcomes)
    (he : o.error = none) :
    let outline := Chunk.parseBytes language f.content (c.parser language)
    let s' := (w.generate c.pipeline project [c.prepared project f language] false).1.store
    ∃ records, s'.projectRecords project = .ok records ∧ ∀ ix ix' : Index,
      Index.Refilled project f.rel outline.chunks (ix.indexRecords project records)
        (ix'.indexFile project f.rel outline.chunks outline.symbols) := by
  intro outline s'
  obtain ⟨answers, s₁, s₂, -, -, -, h, hrows', -⟩ :=
    generate_persisted (p := c.prepared project f language) hs hrows rfl hkeys ho he
  have hpath : (byPosition (s₂.rows.filter (·.project == project))).filter (·.path == f.rel) =
      (Job.ofPrepared c.pipeline 0 (c.prepared project f language)).records project answers :=
    h.records_path rfl fun r hr => (hrows r hr).2
  have hentries : ((Job.ofPrepared c.pipeline 0 (c.prepared project f language)).records project
      answers).map Entry.ofRecord = outline.chunks.map (Entry.ofChunk f.rel) := by
    rw [h.fills.map_records project Entry.ofRecord (Entry.ofChunk f.rel) fun _ _ _ => rfl]
    exact Chunk.map_splitOversized (Entry.ofChunk f.rel) (fun _ _ => rfl) hshort
  have hread := Store.projectRecords_eq (s := s') (hrows' ▸ h.readable hsizes) project
  rw [hrows'] at hread
  refine ⟨_, hread, fun ix ix' => Index.refilled ?_ ?_⟩
  · rw [Index.words?_indexRecords, hpath, hentries, if_pos]
    refine ⟨rfl, fun hnil => Chunk.parseBytes_ne_nil language f.content (c.parser language) ?_⟩
    rw [hnil] at hentries
    exact List.map_eq_nil_iff.1 hentries.symm
  · rw [Index.words?_indexFile, if_pos ⟨rfl, rfl⟩, Option.map_some, filter_wordsOf]

/-- A file with some text. -/
def noteFile (text : String) : Discovered := ⟨"/a.md", "a.md", text.toUTF8, {}⟩

def textFile (text : String) : Prepared := plainConfig.prepared "p" (noteFile text) .markdown

/-- The file embedded by the hashing provider alone, into a store without records. -/
def textRun (text : String) : World × Progress :=
  (localOnly (.memory {})).generate plainConfig.pipeline "p" [textFile text] false

theorem textRun_of_ends {text : String} {n : Nat} {r : Run}
    (h : (Run.start plainConfig.pipeline (localOnly (.memory {})) [textFile text]).ends? plainConfig.pipeline "p" n =
      some r) : textRun text = (r.floor.toWorld, { outcomes := r.outcomes }) := generate_of_ends h

/-- Three lines of text are one chunk, and the words of the file are those of its record. -/
theorem embedded_refilled_threeLines :
    (∀ chunk ∈ (textFile "one\n\nthree").chunks, chunk.content ≠ "") ∧
      (textRun "one\n\nthree").2.outcomes.map (·.error) = [none] ∧
      ∃ records, (textRun "one\n\nthree").1.store.projectRecords "p" = .ok records ∧ ∀ ix ix' : Index,
        Index.Refilled "p" "a.md" (textFile "one\n\nthree").chunks (ix.indexRecords "p" records)
          (ix'.indexFile "p" "a.md" (textFile "one\n\nthree").chunks []) := by
  have hrun : ((Run.start plainConfig.pipeline (localOnly (.memory {})) [textFile "one\n\nthree"]).ends?
      plainConfig.pipeline "p" 10).map (fun r => r.outcomes.map (·.error)) = some [none] := by decide +kernel
  obtain ⟨r, hr, herrors⟩ := Option.map_eq_some_iff.1 hrun
  have hended : (textRun "one\n\nthree").2.outcomes.map (·.error) = [none] := by
    rw [textRun_of_ends hr]
    exact herrors
  obtain ⟨o, ho, herror⟩ := List.map_eq_singleton_iff.1 hended
  have hpieces : ∀ chunk ∈ (textFile "one\n\nthree").pieces plainConfig.pipeline, chunk.index = 0 := by decide +kernel
  have hkeys : Set.InjOn (Digest.Uuid.ofName idSpace)
      {key | (∃ q ∈ (localOnly (.memory {})).store.rows, key = chunkKey q.project q.path q.index) ∨
        ∃ chunk ∈ (textFile "one\n\nthree").pieces plainConfig.pipeline, key = chunkKey "p" "a.md" chunk.index} := by
    refine (Set.injOn_singleton _ (chunkKey "p" "a.md" 0)).mono ?_
    rintro _ (⟨_, hq, -⟩ | ⟨chunk, hchunk, rfl⟩)
    · cases hq
    · rw [hpieces chunk hchunk]
      exact Set.mem_singleton _
  refine ⟨by decide +kernel, hended, ?_⟩
  exact embedded_refilled plainConfig (localOnly (.memory {})) "p" (noteFile "one\n\nthree") .markdown o
    ⟨trivial, .nil, .nil⟩ nofun nofun hkeys (by decide +kernel) (ho ▸ List.mem_cons_self) herror

/-- A file without text is one chunk, which has a record. Words it has only if these are filled from records. -/
theorem empty_refilled :
    (∀ chunk ∈ (textFile "").chunks, chunk.content.length ≤ plainConfig.pipeline.maxChunkSize) ∧
      (textRun "").2.outcomes.map (·.error) = [none] ∧
      ∃ records, (textRun "").1.store.projectRecords "p" = .ok records ∧
        (({} : Index).indexRecords "p" records).words? "p" "a.md" = some [Entry.ofChunk "a.md" Chunk.sentinel] ∧
        ((({} : Index).indexFile "p" "a.md" (textFile "").chunks []).words? "p" "a.md").map
          (·.filter (·.source == .chunk)) = some [] := by
  have hrun : ((Run.start plainConfig.pipeline (localOnly (.memory {})) [textFile ""]).ends? plainConfig.pipeline "p"
      10).map (fun r => (r.outcomes.map (·.error), (r.floor.store.projectRecords "p").toOption.map fun records =>
        (({} : Index).indexRecords "p" records).words? "p" "a.md")) =
      some ([none], some (some [Entry.ofChunk "a.md" Chunk.sentinel])) := by decide +kernel
  obtain ⟨r, hr, he⟩ := Option.map_eq_some_iff.1 hrun
  obtain ⟨herrors, hwords⟩ := Prod.mk.inj he
  obtain ⟨records, hread, hwords⟩ := Option.map_eq_some_iff.1 hwords
  rw [textRun_of_ends hr]
  refine ⟨by decide +kernel, herrors, records, ?_, hwords, by decide +kernel⟩
  cases hstored : r.floor.store.projectRecords "p" with
  | error e =>
    rw [hstored] at hread
    cases hread
  | ok stored =>
    rw [hstored] at hread
    cases hread
    rfl

end CodeIndex
