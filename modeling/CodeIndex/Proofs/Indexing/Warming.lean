import CodeIndex.Proofs.Indexing.Complete
import CodeIndex.Proofs.Indexing.InStep
import CodeIndex.Proofs.Store.Sorted

/-!
Words after a restart. They come back in two ways: from the records in the store, and from the files as they are read
again. Records know of no symbols, and a chunk that was too long was split before it was stored, so the words of a file
depend on the way they came; a file whose words are there is not read again while its content is the one recorded.
-/

namespace CodeIndex

open CodeIndex.Embedding Files Lexical

namespace Chunk

variable {maxChars overlap : Nat} {chunks : List Chunk}

theorem pieces_ne_nil (maxChars overlap : Nat) (c : Chunk) : c.pieces maxChars overlap ≠ [] := by
  unfold pieces
  dsimp only
  split
  · exact List.cons_ne_nil _ _
  · simp [windowCount]

theorem splitOversized_ne_nil (maxChars overlap : Nat) (h : chunks ≠ []) :
    splitOversized chunks maxChars overlap ≠ [] := by
  obtain ⟨c, rest, rfl⟩ := List.exists_cons_of_ne_nil h
  simp [splitOversized, pieces_ne_nil]

/-- Chunks that are not too long stay as they are but for their numbers. -/
theorem map_splitOversized {β : Type} (g : Chunk → β) (hg : ∀ (c : Chunk) index, g { c with index } = g c)
    (h : ∀ c ∈ chunks, c.content.length ≤ maxChars) :
    (splitOversized chunks maxChars overlap).map g = chunks.map g := by
  have hpieces : chunks.flatMap (pieces maxChars overlap) = chunks := by
    rw [List.flatMap_congr (g := fun c => [c]) fun c hc => ?_]
    · simp
    · unfold pieces
      exact if_pos (.inl (h c hc))
  unfold splitOversized
  rw [hpieces, List.map_map, ← List.zipIdx_map_fst 0 chunks, List.map_map, List.zipIdx_map_fst]
  exact List.map_congr_left fun x _ => hg x.1 x.2

theorem lineWindows_ne_nil (window : Nat) (content : String) : lineWindows window content ≠ [] := by
  unfold lineWindows
  dsimp only
  split
  · exact List.cons_ne_nil _ _
  · rename_i hblank
    have hsize : 0 < (Text.lines content).toArray.size := by
      refine Nat.pos_of_ne_zero fun h0 => hblank ?_
      rw [Array.eq_empty_of_size_eq_zero h0]
      exact Array.all_empty
    have hcount : 0 < ((Text.lines content).toArray.size + max window 1 - 1) / max window 1 :=
      Nat.div_pos (by omega) (by omega)
    intro he
    have hlength := congrArg List.length he
    rw [List.length_map, List.length_range] at hlength
    exact hcount.ne' hlength

/-- Where no tree gives chunks the text is cut into windows, and of these there is one at least. -/
theorem parseBytes_ne_nil (language : Language) (bytes : ByteArray) (tree : String → Option Syntax.Node) :
    (parseBytes language bytes tree).chunks ≠ [] := by
  have hwindows : ∀ content reason, (fallBack content reason).chunks ≠ [] := fun content _ =>
    lineWindows_ne_nil fallbackWindow content
  unfold parseBytes
  split
  · unfold parse
    split
    · exact List.cons_ne_nil _ _
    split
    · exact List.cons_ne_nil _ _
    split
    · exact hwindows _ _
    split
    · exact hwindows _ _
    split
    · exact hwindows _ _
    split
    · exact hwindows _ _
    · rename_i hchunks
      exact fun he => hchunks (List.isEmpty_iff.2 he)
  · exact hwindows _ _

end Chunk

/-- Entries that have text. -/
def Lexical.worded (entries : List Entry) : List Entry := entries.filter (!·.content.isEmpty)

/-- What a run leaves of words that were filled from records before, told by what it leaves by itself: the same if the
project was cleared, for a path that no file has, and for one without records; else the entries of the records. Entries
without text are not told of. -/
structure Lexical.Index.Rewarmed (project : String) (files : List Discovered) (records : List Record) (migrated : Bool)
    (plain warmed : Index) : Prop where
  same : ∀ path, migrated = true ∨ path ∉ files.map (·.rel) ∨ records.filter (·.path == path) = [] →
    warmed.words? project path = plain.words? project path
  recorded : migrated = false → ∀ f ∈ files, records.filter (·.path == f.rel) ≠ [] →
    (warmed.words? project f.rel).map worded = some (worded ((records.filter (·.path == f.rel)).map Entry.ofRecord))

/-- The words of a file by itself are those of its chunks and symbols, and after warming those of the pieces of its
chunks, which are the chunks themselves if none is too long. -/
structure Lexical.Index.Resplit (c : IndexerConfig) (project : String) (f : Discovered) (language : Language)
    (plain warmed : Index) : Prop where
  read : plain.words? project f.rel = some (c.words f.rel language f.content)
  pieces : (warmed.words? project f.rel).map worded = some (worded ((Chunk.splitOversized
    (Chunk.parseBytes language f.content (c.parser language)).chunks c.pipeline.maxChunkSize
      c.pipeline.overlapLines).map (Entry.ofChunk f.rel)))
  short : (∀ chunk ∈ (Chunk.parseBytes language f.content (c.parser language)).chunks,
      chunk.content.length ≤ c.pipeline.maxChunkSize) →
    (warmed.words? project f.rel).map worded = (plain.words? project f.rel).map (·.filter (·.source == .chunk))

/-- The entries of chunks among the words of a file are those with text. -/
theorem filter_wordsOf (path : String) (chunks : List Chunk) (symbols : List Symbol) :
    (Index.wordsOf path chunks symbols).filter (·.source == .chunk) = worded (chunks.map (Entry.ofChunk path)) := by
  have hchunks : ∀ e ∈ (chunks.filter (!·.content.isEmpty)).map (Entry.ofChunk path), (e.source == .chunk) = true := by
    intro e he
    obtain ⟨chunk, -, rfl⟩ := List.mem_map.1 he
    rfl
  have hsymbols : ∀ e ∈ symbols.map (Entry.ofSymbol path), ¬(e.source == .chunk) = true := by
    intro e he
    obtain ⟨symbol, -, rfl⟩ := List.mem_map.1 he
    exact Bool.false_ne_true
  rw [Index.wordsOf, List.filter_append, List.filter_eq_self.2 hchunks, List.filter_eq_nil_iff.2 hsymbols,
    List.append_nil, worded, List.filter_map]
  rfl

variable {c : IndexerConfig} {σ : Store.Settings} {k : Contract c.pipeline σ} {S : Scope} {x x' y : Indexer}
  {project : String} {files : List Discovered} {f : Discovered} {s : Store} {m : FileEntry}

/-- The records of a file are in the order of its chunks. -/
theorem Store.Tidy.pairwise_file (h : s.Tidy k S) (hk : k.Fits) (hm : m ∈ s.entries) :
    (s.rows.filter (·.fileId == m.id)).Pairwise fun r q => r.precedes q = true := by
  obtain ⟨p, rfl, hp, embedded, ha, hrows⟩ := h.filed m hm
  rw [hrows]
  exact ((ha.fills hk).numbered p.file.project).imp fun hrq =>
    precedes_iff.2 (.inr ⟨hrq.1, hrq.2.le⟩)

/-- Read back, the records of a path are those of its file. -/
theorem Store.Tidy.records_path (h : s.Tidy k S) (hc : c.ParserFits) (hk : k.Fits) (hm : m ∈ s.entries) :
    (byPosition (s.rows.filter (·.project == m.project))).filter (·.path == m.path) =
      s.rows.filter (·.fileId == m.id) := by
  have hown : (s.rows.filter (·.project == m.project)).filter (·.path == m.path) =
      s.rows.filter (·.fileId == m.id) := by
    rw [List.filter_filter]
    refine List.filter_congr fun r hr => ?_
    obtain ⟨g, hg, hb⟩ := h.belongs hc hk hr
    rw [Bool.eq_iff_iff, Bool.and_eq_true, beq_iff_eq, beq_iff_eq, beq_iff_eq, hb.path, hb.project, hb.fileId]
    constructor
    · rintro ⟨hpath, hproject⟩
      rw [h.entry_eq hg hm hproject hpath]
    · intro hid
      rw [List.inj_on_of_nodup_map h.ids hg hm hid]
      exact ⟨rfl, rfl⟩
  rw [← hown]
  exact filter_byPosition (hown ▸ h.pairwise_file hk hm)

namespace Indexer

variable {tree : FileTree} {t : Session} {w : Indexer}

/-- Nothing is recorded in a project that was cleared. -/
theorem isRecorded_clear (x : Indexer) (project : String) (f : Discovered) :
    (x.clear project).isRecorded project f = false := by
  have hnone : (x.world.store.clear project).1.getFile project f.rel = none := by
    rw [Store.getFile_eq, Store.entries_clear, List.find?_eq_none]
    intro m hm
    have hproject := (List.mem_filter.1 hm).2
    simp_all
  unfold isRecorded recorded?
  change (((x.world.store.clear project).1.getFile project f.rel).map FileEntry.hash == _) = false
  rw [hnone]
  rfl

/-- After a full run a file that is recorded has the words it had, and any other its own, as has one that had none. No
other path has any. -/
theorem Named.words_run (h : x.Named k S) {project : Project} (hd : c.discover tree project.root = .ok files)
    (hf : S.Takes project.id files) (hr : x.indexRoot c tree project false = (x', .ok t)) :
    (∀ path, path ∉ files.map (·.rel) → x'.lexical.words? project.id path = none) ∧
      ∀ f ∈ files, ∀ language, f.language = .ok language →
        x'.lexical.words? project.id f.rel =
          if x.world.needsMigration project.id = false ∧ x.isRecorded project.id f = true ∧
              (x.lexical.words? project.id f.rel).isSome = true then
            x.lexical.words? project.id f.rel
          else some (c.words f.rel language f.content) := by
  obtain ⟨y, u, log, hi, rfl, -⟩ := h.indexRoot_ok hd hf hr
  obtain ⟨-, hwords⟩ := ((h.migrated project.id).taken hf hi).orphaned project.id files
  refine ⟨fun path hpath => by rw [hwords, if_pos ⟨rfl, hpath⟩], fun f hm language hl => ?_⟩
  rw [hwords, if_neg fun hh => hh.2 (List.mem_map_of_mem hm)]
  have hread := hi.reads.words f hm language hl
  have hkept := hi.reads.kept f hm rfl
  unfold Indexer.migrated at hread hkept
  cases hm : x.world.needsMigration project.id with
  | true =>
    rw [hm, if_pos rfl, isRecorded_clear] at hread
    rw [if_neg (by simp)]
    exact hread.resolve_right (by simp)
  | false =>
    rw [hm, if_neg Bool.false_ne_true] at hread hkept
    split
    · rename_i hall
      exact hkept hall.2.1 hall.2.2
    · rename_i hnot
      exact hread.resolve_right fun ⟨_, hrecorded, hsome, _⟩ => hnot ⟨rfl, hrecorded, hsome⟩

/-- Records that can be read back fill the words. -/
theorem warm_ok (h : ∀ r ∈ x.world.store.rows, r.vector.size = r.dimensions) (project : String) :
    let records := byPosition (x.world.store.rows.filter (·.project == project))
    x.world.store.projectRecords project = .ok records ∧
      x.warm project = .ok ({ x with lexical := x.lexical.indexRecords project records }, records.length) := by
  have hread := Store.projectRecords_eq h project
  refine ⟨hread, ?_⟩
  unfold warm
  rw [hread]

theorem Named.indexRecords (h : x.Named k S) {records : List Record}
    (hr : ∀ r ∈ records, (project, r.path) ∈ S.keys) :
    { x with lexical := x.lexical.indexRecords project records }.Named k S := by
  refine ⟨h.floor, h.idle, h.settings, h.keyed, fun q path hw => ?_⟩
  obtain hw | ⟨rfl, r, hmem, rfl⟩ := Index.isSome_indexRecords hw
  · exact h.words q path hw
  · exact hr r hmem

/-- What holds of the records before a run, and of all that are made of files, holds of the records after. -/
theorem Named.rows_indexed {P : Record → Prop} {path : String} {force : Bool} (h : x.Named k S)
    (hnew : ∀ q, S.Admits c q → ∀ chunk vector signature, P (recordOf q.file.project q.file chunk vector signature))
    (hrows : ∀ r ∈ x.world.store.rows, P r) (ht : (Operation.index tree path force).Within S c) :
    ∀ r ∈ (x.indexProject c tree path force).1.world.store.rows, P r :=
  (apply_preserves (P := fun z => z.Named k S ∧ ∀ r ∈ z.world.store.rows, P r)
    (fun _ _ hz hP => ⟨hP.1.change hz,
      rows_change hz hP.1 (fun q hq chunk _ _ e _ vector _ => hnew q hq chunk vector e.signature) hP.2⟩)
    ht ⟨h, hrows⟩).2

/-- Two runs in a new process over the same store, one by itself and one after warming. -/
theorem Named.rewarmed (h : y.Named k S) (hlexical : y.lexical = {}) {project : Project}
    (hd : c.discover tree project.root = .ok files) (hf : S.Takes project.id files)
    (hl : ∀ f ∈ files, ∃ language, f.language = .ok language)
    (hrecorded : ∀ f ∈ files, y.isRecorded project.id f = true)
    (hsize : ∀ r ∈ y.world.store.rows, r.vector.size = r.dimensions)
    (hkeys : ∀ r ∈ y.world.store.rows, (r.project, r.path) ∈ S.keys) :
    let records := byPosition (y.world.store.rows.filter (·.project == project.id))
    ∃ w a sa b sb, y.warm project.id = .ok (w, records.length) ∧
      y.indexRoot c tree project false = (a, .ok sa) ∧ w.indexRoot c tree project false = (b, .ok sb) ∧
      sa.migrated = y.world.needsMigration project.id ∧ sb.migrated = sa.migrated ∧
      a.lexical.Rewarmed project.id files records sa.migrated b.lexical ∧
      ∀ f ∈ files, ∀ language, f.language = .ok language →
        a.lexical.words? project.id f.rel = some (c.words f.rel language f.content) := by
  intro records
  obtain ⟨-, hwarm⟩ := warm_ok hsize project.id
  have hw : { y with lexical := y.lexical.indexRecords project.id records }.Named k S := by
    refine h.indexRecords fun r hr => ?_
    obtain ⟨hr, hproject⟩ := List.mem_filter.1 ((List.mergeSort_perm ..).mem_iff.1 hr)
    exact beq_iff_eq.1 hproject ▸ hkeys r hr
  obtain ⟨a, sa, ha, hsa⟩ := h.migrated_run hd hf false
  obtain ⟨b, sb, hb, hsb⟩ := hw.migrated_run hd hf false
  obtain ⟨haside, hplain⟩ := h.words_run hd hf ha
  obtain ⟨hbside, hwarmed⟩ := hw.words_run hd hf hb
  have hfresh : ∀ path, y.lexical.words? project.id path = none := by
    rw [hlexical]
    exact fun _ => rfl
  have hplain : ∀ f ∈ files, ∀ language, f.language = .ok language →
      a.lexical.words? project.id f.rel = some (c.words f.rel language f.content) := by
    intro f hm language hlanguage
    rw [hplain f hm language hlanguage, hfresh, if_neg (by simp)]
  refine ⟨_, a, sa, b, sb, hwarm, ha, hb, hsa, hsb.trans hsa.symm,
    ⟨fun path hpath => ?_, fun hmigrated f hm hown => ?_⟩, hplain⟩
  · by_cases hmem : path ∈ files.map (·.rel)
    · obtain ⟨f, hm, rfl⟩ := List.mem_map.1 hmem
      obtain ⟨language, hlanguage⟩ := hl f hm
      rw [hplain f hm language hlanguage, hwarmed f hm language hlanguage, if_neg]
      rintro ⟨hmigrated, -, hsome⟩
      rw [Index.words?_indexRecords, hfresh] at hsome
      rcases hpath with hpath | hpath | hpath
      · cases hpath.symm.trans (hsa.trans hmigrated)
      · exact hpath hmem
      · rw [if_neg fun hh => hh.2 hpath] at hsome
        cases hsome
    · rw [haside path hmem, hbside path hmem]
  · obtain ⟨language, hlanguage⟩ := hl f hm
    have hwords := Index.words?_indexRecords y.lexical project.id project.id f.rel records
    rw [if_pos ⟨rfl, hown⟩] at hwords
    rw [hwarmed f hm language hlanguage, if_pos ⟨hsa ▸ hmigrated, hrecorded f hm, by rw [hwords]; rfl⟩, hwords]
    rfl

end Indexer

/-- Read back, the records of a file tell the pieces of its chunks. -/
theorem Store.Tidy.entries_path (h : x.world.store.Tidy k S) (hc : c.ParserFits) (hk : k.Fits)
    (hapart : Set.InjOn fingerprint S.contents) (hcontent : f.content ∈ S.contents) (hsound : f.Sound)
    {language : Language} (hl : f.language = .ok language) (hr : x.isRecorded project f = true) :
    ((byPosition (x.world.store.rows.filter (·.project == project))).filter (·.path == f.rel)).map Entry.ofRecord =
      (Chunk.splitOversized (Chunk.parseBytes language f.content (c.parser language)).chunks c.pipeline.maxChunkSize
        c.pipeline.overlapLines).map (Entry.ofChunk f.rel) := by
  obtain ⟨m, hm, rfl, hpath, hhash⟩ := (Indexer.isRecorded_iff h.toKeyed hsound.normal).1 hr
  have hrecords := h.records_path hc hk hm
  obtain ⟨p, rfl, hp, embedded, ha, hrows⟩ := h.filed m hm
  obtain ⟨g, language', he, hcontent', hl'⟩ := hp.read
  have hsame : g.content = f.content := by
    refine hapart hcontent' hcontent ?_
    rw [← hhash, he]
    rfl
  have hrel : g.rel = f.rel := (congrArg (·.file.path) he).symm.trans hpath
  have hlanguage : language' = language := by
    have htold := hl' (hrel ▸ hsound.named)
    rw [hrel, ← hsound.language, Indexer.ofPath?_of_language hl] at htold
    exact (Option.some.inj htold).symm
  have hpieces : p.pieces c.pipeline = Chunk.splitOversized
      (Chunk.parseBytes language f.content (c.parser language)).chunks c.pipeline.maxChunkSize
        c.pipeline.overlapLines := by
    rw [← hsame, ← hlanguage, he]
    rfl
  rw [← hpath, hrecords, hrows, ← hpieces]
  exact map_records hk ha _ _ fun _ _ _ => rfl

theorem Lexical.Index.Rewarmed.resplit {plain warmed : Index} {records : List Record} {language : Language}
    (h : plain.Rewarmed project files records false warmed) (hf : f ∈ files)
    (hread : plain.words? project f.rel = some (c.words f.rel language f.content))
    (hentries : (records.filter (·.path == f.rel)).map Entry.ofRecord =
      (Chunk.splitOversized (Chunk.parseBytes language f.content (c.parser language)).chunks c.pipeline.maxChunkSize
        c.pipeline.overlapLines).map (Entry.ofChunk f.rel)) : plain.Resplit c project f language warmed := by
  have hchunks := Chunk.parseBytes_ne_nil language f.content (c.parser language)
  have hown : records.filter (·.path == f.rel) ≠ [] := by
    intro hnil
    rw [hnil] at hentries
    exact Chunk.splitOversized_ne_nil _ _ hchunks (List.map_eq_nil_iff.1 hentries.symm)
  have hwarmed := h.recorded rfl f hf hown
  rw [hentries] at hwarmed
  refine ⟨hread, hwarmed, fun hshort => ?_⟩
  rw [Chunk.map_splitOversized (Entry.ofChunk f.rel) (fun _ _ => rfl) hshort] at hwarmed
  rw [hwarmed, hread, Option.map_some]
  exact congrArg some (filter_wordsOf ..).symm

theorem Store.tidy_empty (k : Contract c.pipeline s.settings) (S : Scope) (hentries : s.entries = [])
    (hrows : s.rows = []) (hsane : s.Sane) : s.Tidy k S := by
  refine ⟨⟨hsane, ?_, ?_⟩, rfl, ?_, ?_⟩
  · simp [hentries]
  · simp [hentries]
  · simp [hentries]
  · simp [hrows]

/-- A process leaves a store in order, as do its providers what is at work. -/
theorem Process.reach_orderly {p : Process} {k : Contract p.config.pipeline σ} (hp : p.Within S)
    (hc : p.config.ParserFits) (hk : k.Fits) (hS : S.Suits σ) (hfloor : k.floor p.providers { config := p.health })
    (h : s.Tidy k S) : (p.reach s).Orderly k S := by
  refine Indexer.run_preserves (fun _ _ => Indexer.Orderly.change hc hk hS) hp.ops ?_
  have hworld : (p.begin s).world =
      { now := p.now, providers := p.providers, health := { config := p.health }, store := s } :=
    (Indexer.warmed_spec _ p.warmed).1
  refine ⟨?_, ?_⟩
  · rw [hworld]
    exact hfloor
  · rw [hworld]
    exact h

/-- Processes of one configuration, with providers out of some, leave a store in order. -/
theorem Store.served_tidy {chain : List Signature} {processes : List Process}
    (hps : ∀ p ∈ processes, p.Within S ∧ p.config = c ∧ p.providers.map Provider.signature ⊆ chain) (hc : c.ParserFits)
    (hk : (Contract.among c.pipeline chain σ).Fits) (hS : S.Suits σ) (h : s.Tidy (.among c.pipeline chain σ) S) :
    (s.served processes).Tidy (.among c.pipeline chain σ) S := by
  induction processes generalizing s with
  | nil => exact h
  | cons p processes ih =>
    obtain ⟨hp, rfl, hchain⟩ := hps p List.mem_cons_self
    exact ih (fun q hq => hps q (List.mem_cons_of_mem p hq)) (p.reach_orderly hp hc hk hS hchain h).tidy

theorem among_fits {chain : List Signature} (h : ∀ s ∈ chain, σ.Admits s.dimensions) :
    (Contract.among c.pipeline chain σ).Fits := answering_fits (c := c) h

/-- The signatures of all providers of some processes. -/
def Process.signatures (processes : List Process) : List Signature :=
  processes.flatMap fun p => p.providers.map Provider.signature

/-- A store is in order after a run at the end of any processes of one configuration, if it lets in what their providers
announce. -/
theorem Process.indexed_tidy {p : Process} {earlier : List Process} {tree : FileTree} {path : String} {force : Bool}
    (hs : ∀ k : Contract p.config.pipeline s.settings, s.Tidy k S) (hearlier : ∀ q ∈ earlier, q.Within S)
    (hp : p.Within S) (hsame : ∀ q ∈ earlier, q.config = p.config)
    (hadmits : ∀ signature ∈ signatures (p :: earlier), s.settings.Admits signature.dimensions)
    (hc : p.config.ParserFits) (hS : S.Suits s.settings) (htree : (Operation.index tree path force).Within S p.config) :
    ((p.reach (s.served earlier)).indexProject p.config tree path force).1.world.store.Tidy
      (.among p.config.pipeline (signatures (p :: earlier)) s.settings) S := by
  have hk := among_fits (c := p.config) hadmits
  have hsub : ∀ q ∈ p :: earlier, q.providers.map Provider.signature ⊆ signatures (p :: earlier) :=
    fun q hq signature hm => List.mem_flatMap.2 ⟨q, hq, hm⟩
  have hserved := Store.served_tidy
    (fun q hq => ⟨hearlier q hq, hsame q hq, hsub q (List.mem_cons_of_mem p hq)⟩) hc hk hS (hs _)
  have hreach := p.reach_orderly hp hc hk hS (hsub p List.mem_cons_self) hserved
  exact (Indexer.apply_preserves (fun _ _ => Indexer.Orderly.change hc hk hS) htree hreach).tidy

/-- A record with a name of the scope that can be read back. -/
def Record.Readable (S : Scope) (r : Record) : Prop := (r.project, r.path) ∈ S.keys ∧ r.vector.size = r.dimensions

theorem readable_recordOf {c : IndexerConfig} {q : Prepared} (hq : S.Admits c q) (chunk : Chunk) (vector : Vec)
    (signature : Signature) : (recordOf q.file.project q.file chunk vector signature).Readable S :=
  ⟨hq.key, rfl⟩

/-- After any processes over an empty store the next one has an index in order, and records that can be read back. -/
theorem Process.reach_readable {earlier : List Process} {p : Process} (hentries : s.entries = []) (hrows : s.rows = [])
    (hsane : s.Sane) (hearlier : ∀ q ∈ earlier, q.Within S) (hp : p.Within S) :
    (p.reach (s.served earlier)).Named (.answering p.config.pipeline (p.providers.map Provider.signature)
        (s.served earlier).settings) S ∧
      ∀ r ∈ (p.reach (s.served earlier)).world.store.rows, r.Readable S := by
  have hholding : (s.served earlier).Holding S (Record.Readable S) :=
    Store.served_holding hearlier (fun _ h => h.1)
      (fun _ _ _ hq chunk _ vector signature => readable_recordOf hq chunk vector signature)
      (Store.holding_empty hentries hrows hsane)
  exact p.reach_holding hp rfl (fun _ h => h.1)
    (fun _ hq chunk _ vector signature => readable_recordOf hq chunk vector signature) hholding

/-- In a new process a run after warming leaves what the run leaves by itself, but for files that have records: these
bring back their chunks as they were split, and no symbols. -/
theorem rewarmed_run (S : Scope) (s : Store) (earlier : List Process) (p : Process) (tree : FileTree) (path : String)
    (force : Bool) (x' : Indexer) (s' : Session) (y : Indexer) (hentries : s.entries = []) (hrows : s.rows = [])
    (hsane : s.Sane) (hearlier : ∀ q ∈ earlier, q.Within S) (hp : p.Within S)
    (htree : (Operation.index tree path force).Within S p.config)
    (hrun : (p.reach (s.served earlier)).indexProject p.config tree path force = (x', .ok s')) (hok : s'.errors = [])
    (hstore : y.world.store = x'.world.store) (hlexical : y.lexical = {}) (hidle : y.world.health.Idle) :
    ∃ project files records w a sa b sb, p.config.identifyProject tree path = .ok project ∧
      p.config.discover tree project.root = .ok files ∧ y.world.store.projectRecords project.id = .ok records ∧
      y.warm project.id = .ok (w, records.length) ∧ y.indexProject p.config tree path false = (a, .ok sa) ∧
      w.indexProject p.config tree path false = (b, .ok sb) ∧ sa.migrated = y.world.needsMigration project.id ∧
      sb.migrated = sa.migrated ∧ a.lexical.Rewarmed project.id files records sa.migrated b.lexical ∧
      ((∀ q ∈ earlier, q.config = p.config) →
        (∀ signature ∈ Process.signatures (p :: earlier), s.settings.Admits signature.dimensions) →
        p.config.ParserFits → S.Suits s.settings → Set.InjOn fingerprint S.contents → sa.migrated = false →
          ∀ f ∈ files, ∃ language, f.language = .ok language ∧
            a.lexical.Resplit p.config project.id f language b.lexical) := by
  obtain ⟨hnamed, hreadable⟩ := Process.reach_readable hentries hrows hsane hearlier hp
  have hafter := hnamed.indexed htree
  have hreadable' : ∀ r ∈ ((p.reach (s.served earlier)).indexProject p.config tree path force).1.world.store.rows,
      r.Readable S :=
    hnamed.rows_indexed (fun _ hq chunk vector signature => readable_recordOf hq chunk vector signature) hreadable htree
  rw [hrun] at hafter hreadable'
  obtain ⟨project, files, hproject, hd⟩ := Indexer.indexProject_ok hrun
  have htakes := Indexer.takes_of_covers (htree project hproject) hd
  have hroot := hrun
  rw [Indexer.indexProject_eq hproject] at hroot
  obtain ⟨hsettled, hlanguage⟩ := hnamed.settled_run hd htakes hroot hok
  have hrecorded : ∀ f ∈ files, y.isRecorded project.id f = true := by
    intro f hf
    rw [Indexer.isRecorded_congr hstore]
    obtain ⟨language, hl⟩ := hlanguage f hf
    exact (hsettled.recorded f hf language hl).1
  have hy : y.Named
      (.answering p.config.pipeline (y.world.providers.map Provider.signature) y.world.store.settings) S :=
    Indexer.named_of_keyed (hstore ▸ hafter.keyed) hlexical hidle
  rw [← hstore] at hreadable'
  obtain ⟨w, a, sa, b, sb, hwarm, ha, hb, hsa, hsb, hrewarmed, hread⟩ := hy.rewarmed hlexical hd htakes hlanguage
    hrecorded (fun r hr => (hreadable' r hr).2) fun r hr => (hreadable' r hr).1
  refine ⟨project, files, _, w, a, sa, b, sb, hproject, hd,
    Store.projectRecords_eq (fun r hr => (hreadable' r hr).2) project.id, hwarm,
    (Indexer.indexProject_eq hproject y false).trans ha, (Indexer.indexProject_eq hproject w false).trans hb, hsa, hsb,
    hrewarmed, fun hsame hadmits hc hS hapart hnot f hf => ?_⟩
  obtain ⟨language, hl⟩ := hlanguage f hf
  have hsound := (htree project hproject).sound files hd f hf
  rw [hnot] at hrewarmed
  have htidy := Process.indexed_tidy (fun k => Store.tidy_empty k S hentries hrows hsane) hearlier hp hsame hadmits hc
    hS htree
  rw [hrun, ← hstore] at htidy
  have hentries' := htidy.entries_path hc (among_fits hadmits) hapart (htakes.content f hf) hsound hl (hrecorded f hf)
  exact ⟨language, hl, hrewarmed.resplit hf (hread f hf language hl) hentries'⟩

/-- One file, which has no symbols, is warmed to what it was. -/
theorem rewarmed_run_oneFile :
    ∃ x' s' w n a sa b sb,
      (freshIndexer (.memory {}) [.hashing 8]).indexProject plainConfig oneFile "/" false = (x', .ok s') ∧
      (x'.restart [.hashing 8]).warm oneProject.id = .ok (w, n) ∧
      (x'.restart [.hashing 8]).indexProject plainConfig oneFile "/" false = (a, .ok sa) ∧
      w.indexProject plainConfig oneFile "/" false = (b, .ok sb) ∧ sa.migrated = false ∧
      ∃ language, oneDiscovered.language = .ok language ∧
        a.lexical.Resplit plainConfig oneProject.id oneDiscovered language b.lexical := by
  obtain ⟨x', s', hrun, herrors, -, hmigrates, hslots⟩ := followed_hashing
  have hfirst := Indexer.indexProject_followed rfl hrun
  have hidle : (x'.restart [.hashing 8]).world.health.Idle := Health.Registry.idle_empty (by rw [hslots]; decide)
  obtain ⟨project, files, records, w, a, sa, b, sb, hproject, hd, -, hwarm, ha, hb, hsa, -, -, hresplit⟩ :=
    rewarmed_run oneScope (.memory {}) [] ⟨plainConfig, ⟨3, 3600000, 3, 60000, 8⟩, [.hashing 8], 0, [], []⟩ oneFile "/"
      false x' s' (x'.restart [.hashing 8]) rfl rfl trivial nofun ⟨by decide, nofun⟩ (index_oneFile_within false) hfirst
      herrors rfl rfl hidle
  cases identify_oneFile.symm.trans hproject
  cases discover_oneFile.symm.trans hd
  have hnot : sa.migrated = false := hsa.trans hmigrates
  refine ⟨x', s', w, _, a, sa, b, sb, hfirst, hwarm, ha, hb, hnot, ?_⟩
  exact hresplit nofun (fun _ _ => ⟨nofun, nofun⟩) nofun nofun (Set.injOn_singleton _ _) hnot oneDiscovered
    List.mem_cons_self

/-- A function on one line. -/
def functionText : String := "fn b() \x7b\x7d\n"

def functionTree : Syntax.Node :=
  .mk "source_file" true none 0 10 [
    .mk "function_item" true none 0 9 [
      .mk "fn" false none 0 2 [],
      .mk "identifier" true (some .name) 3 4 [],
      .mk "parameters" true none 4 6 [.mk "(" false none 4 5 [], .mk ")" false none 5 6 []],
      .mk "block" true (some .body) 7 9 [.mk "\x7b" false none 7 8 [], .mk "\x7d" false none 8 9 []]]]

/-- A process that can read the function. -/
def readingFunction : Process where
  config := { plainConfig with parser := fun _ text => if text = functionText then some functionTree else none }
  health := ⟨3, 3600000, 3, 60000, 8⟩
  providers := [.hashing 8]
  ops := []

def oneFunction : FileTree := .dir [("b.rs", .file functionText.toUTF8)]

def functionDiscovered : Discovered := ⟨"/b.rs", "b.rs", functionText.toUTF8, {}⟩

theorem identify_oneFunction : readingFunction.config.identifyProject oneFunction "/" = .ok oneProject := by
  have hplain : plainConfig.identifyProject oneFunction "/" = .ok oneProject := identify_root (by decide +kernel)
  exact hplain

theorem discover_oneFunction :
    readingFunction.config.discover oneFunction oneProject.root = .ok [functionDiscovered] := by decide +kernel

/-- A run in a new process, and one after warming, over the store that a first run left. -/
def functionRuns : Option ((Indexer × Session) × Indexer × Nat × (Indexer × Session) × Indexer × Session) := do
  let ends (x : Indexer) := x.ends? readingFunction.config 10 oneProject.id [functionDiscovered]
  let first ← ends (readingFunction.begin (.memory {}))
  let y := first.1.restart [.hashing 8]
  let (w, n) ← (y.warm oneProject.id).toOption
  let a ← ends y
  let b ← ends w
  return (first, w, n, a, b)

/-- By itself the run brings back the function's symbol, and after warming it does not. -/
theorem functionRuns_sources :
    (functionRuns.map fun (first, w, _, a, b) =>
      (first.2.errors, [first.1.world.health.config.defaultConcurrency],
        [first.1.restart [.hashing 8], w].map (·.world.needsMigration oneProject.id),
        [a, b].map fun z => ((z.1.lexical.words? oneProject.id "b.rs").getD []).map (·.source))) =
      some ([], [8], [false, false], [[.chunk, .symbol], [.chunk]]) := by decide +kernel

/-- Warming changes where a run ends up. -/
theorem warmed_words_differ :
    ¬∀ (p : Process) (tree : FileTree) (path : String) (x' y w a b : Indexer) (s' sa sb : Session) (n : Nat)
        (project : Project),
      (p.reach (.memory {})).indexProject p.config tree path false = (x', .ok s') → s'.errors = [] →
      y.world.store = x'.world.store → y.lexical = {} → y.world.health.Idle →
      p.config.identifyProject tree path = .ok project → y.warm project.id = .ok (w, n) →
      y.indexProject p.config tree path false = (a, .ok sa) → w.indexProject p.config tree path false = (b, .ok sb) →
        ∀ q, b.lexical.words? project.id q = a.lexical.words? project.id q := by
  intro h
  obtain ⟨⟨⟨x', s'⟩, w, n, ⟨a, sa⟩, b, sb⟩, hruns, he⟩ := Option.map_eq_some_iff.1 functionRuns_sources
  simp only [List.map_cons, List.map_nil, Prod.mk.injEq, List.cons.injEq, and_true] at he
  obtain ⟨herrors, hslots, ⟨hmigrates, hmigrates'⟩, hread, hwarmed⟩ := he
  unfold functionRuns at hruns
  simp only [Option.bind_eq_bind, Option.bind_eq_some_iff, Option.pure_def, Option.some.injEq, Prod.mk.injEq] at hruns
  obtain ⟨_, hfirst, ⟨w', n'⟩, hwarm, _, ha, _, hb, rfl, rfl, rfl, rfl, rfl⟩ := hruns
  have hwarm' : (x'.restart [.hashing 8]).warm oneProject.id = .ok (w', n') := by
    cases he : (x'.restart [.hashing 8]).warm oneProject.id with
    | error e =>
      rw [he] at hwarm
      cases hwarm
    | ok filled =>
      rw [he] at hwarm
      cases hwarm
      rfl
  have hends : ∀ {x x' : Indexer} {t : Session}, x.world.needsMigration oneProject.id = false →
      x.ends? readingFunction.config 10 oneProject.id [functionDiscovered] = some (x', t) →
        x.indexProject readingFunction.config oneFunction "/" false = (x', .ok t) := fun hm he =>
    Indexer.indexProject_of_ends identify_oneFunction discover_oneFunction hm he
  have hidle : (x'.restart [.hashing 8]).world.health.Idle := Health.Registry.idle_empty (by rw [hslots]; decide)
  have hsame := h readingFunction oneFunction "/" x' (x'.restart [.hashing 8]) w' a b s' sa sb n' oneProject
    (hends rfl hfirst) herrors rfl rfl hidle identify_oneFunction hwarm' (hends hmigrates ha) (hends hmigrates' hb) "b.rs"
  rw [hsame, hread] at hwarmed
  cases hwarmed

end CodeIndex
