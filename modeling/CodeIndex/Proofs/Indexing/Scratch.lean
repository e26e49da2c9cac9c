import CodeIndex.Proofs.Indexing.Synced
import CodeIndex.Proofs.Store.Sorted

/-!
Indexing step by step and indexing from scratch. With the hashing provider alone, what an index holds for a project
after a full run is told by the files of the tree: their entries, the records of all their chunks, and their words.
So an index with a history answers like one that was made for this tree. Only the times of files may be older, as a file
that was written again with the content that it had is not recorded anew.
-/

namespace CodeIndex

open CodeIndex.Embedding Files Lexical

variable {c : IndexerConfig} {dims : Nat} {σ τ : Store.Settings} {S : Scope} {x y : Indexer} {project : String}
  {files : List Discovered}

theorem answers_hashing {p : Prepared} {embedded : List Embedded}
    (h : (Contract.hashing c.pipeline dims σ).Answers p embedded) :
    embedded = (p.groups c.pipeline).map (hashed dims) := by
  have hresults := results_hashing (List.forall₂_map_right_iff.2 h)
  exact List.map_injective_iff.2 (fun _ _ => Except.ok.inj) hresults

/-- The records of a file in the vectors of the hashing provider. -/
def Embedding.Prepared.hashedRecords (c : PipelineConfig) (dims : Nat) (p : Prepared) : List Record :=
  p.records c ((p.groups c).map (hashed dims))

/-- An entry without the time at which its file was changed. -/
def FileEntry.undated (m : FileEntry) : FileEntry := { m with modifiedMs := 0 }

def Embedding.Prepared.undated (p : Prepared) : Prepared := { p with file := p.file.undated }

/-- Records do not tell of times. -/
theorem hashedRecords_undated (cp : PipelineConfig) (p : Prepared) :
    p.undated.hashedRecords cp dims = p.hashedRecords cp dims := rfl

/-- But for its time a file is embedded for its path and content. -/
theorem undated_prepared {f g : Discovered} (hrel : g.rel = f.rel) (hcontent : g.content = f.content)
    (language : Language) : (c.prepared project g language).undated = (c.prepared project f language).undated := by
  unfold IndexerConfig.prepared Embedding.Prepared.undated FileEntry.undated entryOf
  rw [hrel, hcontent]

/-- What is embedded for the files of a tree, those with a language. -/
def IndexerConfig.preparedAll (c : IndexerConfig) (project : String) (files : List Discovered) : List Prepared :=
  files.filterMap fun f => (Language.ofPath? f.rel).map fun language => (c.prepared project f language).undated

theorem mem_preparedAll {p : Prepared} : p ∈ c.preparedAll project files ↔
    ∃ f ∈ files, ∃ language, Language.ofPath? f.rel = some language ∧
      p = (c.prepared project f language).undated := by
  unfold IndexerConfig.preparedAll
  rw [List.mem_filterMap]
  refine exists_congr fun f => and_congr_right fun _ => ?_
  rw [Option.map_eq_some_iff]
  exact exists_congr fun language => and_congr_right fun _ => eq_comm

/-- The path of a file tells what is embedded for it. -/
theorem preparedAll_inj (hn : (files.map (·.rel)).Nodup) {p q : Prepared} (hp : p ∈ c.preparedAll project files)
    (hq : q ∈ c.preparedAll project files) (hpath : p.file.path = q.file.path) : p = q := by
  obtain ⟨f, hf, language, hl, rfl⟩ := mem_preparedAll.1 hp
  obtain ⟨g, hg, language', hl', rfl⟩ := mem_preparedAll.1 hq
  obtain rfl : f = g := List.inj_on_of_nodup_map hn hf hg hpath
  rw [hl] at hl'
  rw [Option.some.inj hl']

namespace Store.Tidy

variable {s : Store} {k : Contract c.pipeline σ}

/-- No record is there twice. -/
theorem nodup_rows (h : s.Tidy k S) (hc : c.ParserFits) (hk : k.Fits) : s.rows.Nodup := by
  rw [List.nodup_iff_count_le_one]
  intro r
  by_cases hr : r ∈ s.rows
  · obtain ⟨m, hm, hid⟩ := h.owned r hr
    obtain ⟨p, -, hp, embedded, ha, hrs⟩ := h.filed m hm
    have hcount := List.count_filter (p := fun q : Record => q.fileId == m.id) (l := s.rows) (beq_iff_eq.2 hid.symm)
    rw [← hcount, hrs]
    exact List.nodup_iff_count_le_one.1 (nodup_ids_records hc hk hp ha).of_map r
  · rw [List.count_eq_zero_of_not_mem hr]
    exact Nat.zero_le 1

/-- Records of a project in the same place are the same. -/
theorem eq_of_place (h : s.Tidy k S) (hc : c.ParserFits) (hk : k.Fits) {r q : Record} (hr : r ∈ s.rows)
    (hq : q ∈ s.rows) (hproject : r.project = q.project) (hpath : r.path = q.path) (hi : r.index = q.index) : r = q := by
  obtain ⟨m, hm, hbr⟩ := h.belongs hc hk hr
  obtain ⟨g, hg, hbq⟩ := h.belongs hc hk hq
  have hid : r.fileId = q.fileId := by
    rw [hbr.fileId, hbq.fileId, (h.keyed m hm).2, (h.keyed g hg).2, ← hbr.project, ← hbr.path, hproject, hpath,
      hbq.project, hbq.path]
  obtain ⟨p, rfl, hp, embedded, ha, hrs⟩ := h.filed m hm
  refine List.inj_on_of_nodup_map (nodup_ids_records hc hk hp ha) ?_ ?_ ?_
  · rw [← hrs]
    exact List.mem_filter.2 ⟨hr, beq_iff_eq.2 hbr.fileId⟩
  · rw [← hrs]
    exact List.mem_filter.2 ⟨hq, beq_iff_eq.2 (hid.symm.trans hbr.fileId)⟩
  · rw [hbr.id, hbq.id, ← hbr.project, ← hbr.path, hproject, hpath, hbq.project, hbq.path, hi]

end Store.Tidy

namespace Indexer

/-- A file that can be read has the language that its name tells. -/
theorem language_of_readable {f : Discovered} {language : Language} (hsound : f.Sound) (hfault : f.stat.fault = none)
    (hl : Language.ofPath? f.rel = some language) : f.language = .ok language := by
  unfold Discovered.language
  rw [hsound.language, hl, hfault]

/-- An index that is settled over files of the scope that can be read, whose contents have fingerprints of their own. -/
structure Current (c : IndexerConfig) (dims : Nat) (σ : Store.Settings) (S : Scope) (project : String)
    (files : List Discovered) (x : Indexer) : Prop extends x.Synced c dims σ S, x.Settled project files where
  takes : S.Takes project files
  sound : ∀ f ∈ files, f.Sound
  readable : ∀ f ∈ files, f.stat.fault = none
  apart : Set.InjOn fingerprint S.contents

variable {f : Discovered} {m : FileEntry} {language : Language}

/-- A file of the tree that has a language is recorded and has its words. -/
theorem Current.known (h : x.Current c dims σ S project files) (hf : f ∈ files)
    (hl : Language.ofPath? f.rel = some language) :
    x.isRecorded project f = true ∧ (x.lexical.words? project f.rel).isSome = true :=
  h.recorded f hf language (language_of_readable (h.sound f hf) (h.readable f hf) hl)

/-- What is recorded for a file of the tree is its present content. -/
theorem Current.content_eq (h : x.Current c dims σ S project files) (hf : f ∈ files)
    (hl : Language.ofPath? f.rel = some language) (hm : m ∈ x.world.store.entries) (hproject : m.project = project)
    (hpath : m.path = f.rel) {content : ByteArray} (hcontent : content ∈ S.contents)
    (hhash : m.hash = fingerprint content) : content = f.content := by
  obtain ⟨g, hg, hgproject, hgpath, hghash⟩ := (isRecorded_iff h.keyed (h.takes.normal f hf)).1 (h.known hf hl).1
  have hsame : m = g := h.keyed.entry_eq hm hg (hproject.trans hgproject.symm) (hpath.trans hgpath.symm)
  refine h.apart hcontent (h.takes.content f hf) ?_
  rw [← hhash, hsame, hghash]

/-- What an index holds for an entry of the project is what its file is embedded for. -/
theorem Current.prepared (h : x.Current c dims σ S project files) (hm : m ∈ x.world.store.entries)
    (hproject : m.project = project) :
    ∃ p ∈ c.preparedAll project files, p.file = m.undated ∧
      x.world.store.rows.filter (·.fileId == m.id) = p.hashedRecords c.pipeline dims := by
  obtain ⟨f, hf, hpath⟩ := List.mem_map.1 (h.paths m.path (mem_paths.2 (.inl ⟨m, hm, hproject, rfl⟩)))
  obtain ⟨p, rfl, hp, embedded, ha, hrows⟩ := h.tidy.filed m hm
  obtain ⟨g, language, he, hcontent, hl⟩ := hp.read
  have hrel : g.rel = f.rel := (congrArg (·.file.path) he).symm.trans hpath.symm
  have hlanguage : Language.ofPath? f.rel = some language := hrel ▸ hl (hrel ▸ (h.sound f hf).named)
  have hhash : p.file.hash = fingerprint g.content := congrArg (·.file.hash) he
  have hsame := h.content_eq hf hlanguage hm hproject hpath.symm hcontent hhash
  refine ⟨p.undated, mem_preparedAll.2 ⟨f, hf, language, hlanguage, ?_⟩, rfl, ?_⟩
  · rw [← undated_prepared hrel hsame, ← hproject, ← he]
  · rw [hrows, answers_hashing ha, hashedRecords_undated]
    rfl

/-- The entries of a project are those of the files. -/
theorem Current.mem_entries (h : x.Current c dims σ S project files) :
    (∃ g ∈ x.world.store.entries, g.project = project ∧ g.undated = m) ↔
      ∃ p ∈ c.preparedAll project files, p.file = m := by
  constructor
  · rintro ⟨g, hg, hproject, rfl⟩
    obtain ⟨p, hp, he, -⟩ := h.prepared hg hproject
    exact ⟨p, hp, he⟩
  · rintro ⟨p, hp, rfl⟩
    obtain ⟨f, hf, language, hl, he⟩ := mem_preparedAll.1 hp
    obtain ⟨g, hg, hproject, hpath, -⟩ := (isRecorded_iff h.keyed (h.takes.normal f hf)).1 (h.known hf hl).1
    -- the entry with this path comes from this file, which is the only one with it
    obtain ⟨q, hq, hgq, -⟩ := h.prepared hg hproject
    have hqg : q.file.path = g.undated.path := congrArg FileEntry.path hgq
    have hsame := preparedAll_inj h.takes.nodup hq hp (hqg.trans (hpath.trans (by rw [he]; rfl)))
    exact ⟨g, hg, hproject, hgq.symm.trans (congrArg Prepared.file hsame)⟩

/-- The records of a project are those of the files. -/
theorem Current.mem_rows (h : x.Current c dims σ S project files) (hc : c.ParserFits) (hσ : σ.Admits (max dims 1))
    {r : Record} :
    r ∈ x.world.store.rows ∧ r.project = project ↔
      ∃ p ∈ c.preparedAll project files, r ∈ p.hashedRecords c.pipeline dims := by
  constructor
  · rintro ⟨hr, hproject⟩
    obtain ⟨m, hm, hb⟩ := h.tidy.belongs hc (hashing_fits hσ) hr
    obtain ⟨p, hp, -, hrows⟩ := h.prepared hm (hb.project.symm.trans hproject)
    exact ⟨p, hp, hrows ▸ List.mem_filter.2 ⟨hr, beq_iff_eq.2 hb.fileId⟩⟩
  · rintro ⟨p, hp, hr⟩
    obtain ⟨g, hm, hproject, hgp⟩ := h.mem_entries.2 ⟨p, hp, rfl⟩
    obtain ⟨q, hq, he, hrows⟩ := h.prepared hm hproject
    rw [← preparedAll_inj h.takes.nodup hq hp (congrArg FileEntry.path (he.trans hgp)), ← hrows] at hr
    obtain ⟨hr, hid⟩ := List.mem_filter.1 hr
    obtain ⟨m, hm', hb⟩ := h.tidy.belongs hc (hashing_fits hσ) hr
    refine ⟨hr, ?_⟩
    rw [hb.project, List.inj_on_of_nodup_map h.keyed.ids hm' hm (hb.fileId.symm.trans (beq_iff_eq.1 hid)), hproject]

/-- Sorting by path does not look at times. -/
theorem undated_byPath (fs : List FileEntry) : (byPath fs).map FileEntry.undated = byPath (fs.map FileEntry.undated) :=
  List.map_mergeSort fun _ _ _ _ => rfl

theorem Current.mem_undated (h : x.Current c dims σ S project files) :
    m ∈ (x.world.store.entries.filter (·.project == project)).map FileEntry.undated ↔
      ∃ p ∈ c.preparedAll project files, p.file = m := by
  rw [← h.mem_entries]
  simp only [List.mem_map, List.mem_filter, beq_iff_eq, and_assoc]

theorem Current.nodup_undated (h : x.Current c dims σ S project files) :
    ((x.world.store.entries.filter (·.project == project)).map FileEntry.undated).Nodup := by
  refine List.Nodup.of_map FileEntry.id ?_
  rw [List.map_map]
  exact h.keyed.ids.sublist (List.filter_sublist.map _)

theorem Current.listFiles_eq (hx : x.Current c dims σ S project files) (hy : y.Current c dims τ S project files) :
    (x.world.store.listFiles project).map FileEntry.undated = (y.world.store.listFiles project).map FileEntry.undated := by
  rw [Store.listFiles_eq, Store.listFiles_eq, undated_byPath, undated_byPath]
  refine byPath_congr ((List.perm_ext_iff_of_nodup hx.nodup_undated hy.nodup_undated).2
    fun m => hx.mem_undated.trans hy.mem_undated.symm) fun m hm g hg hpath => ?_
  obtain ⟨p, hp, rfl⟩ := hx.mem_undated.1 hm
  obtain ⟨q, hq, rfl⟩ := hx.mem_undated.1 hg
  rw [preparedAll_inj hx.takes.nodup hp hq hpath]

theorem Current.projectRecords_ok (h : x.Current c dims σ S project files) (hc : c.ParserFits)
    (hσ : σ.Admits (max dims 1)) :
    x.world.store.projectRecords project = .ok (byPosition (x.world.store.rows.filter (·.project == project))) := by
  refine Store.projectRecords_eq (fun r hr => ?_) project
  obtain ⟨m, -, hb⟩ := h.tidy.belongs hc (hashing_fits hσ) hr
  exact hb.dimensions

theorem Current.projectRecords_eq (hx : x.Current c dims σ S project files) (hy : y.Current c dims τ S project files)
    (hc : c.ParserFits) (hσ : σ.Admits (max dims 1)) (hτ : τ.Admits (max dims 1)) :
    x.world.store.projectRecords project = y.world.store.projectRecords project := by
  rw [hx.projectRecords_ok hc hσ, hy.projectRecords_ok hc hτ]
  have hnodup := (hx.tidy.nodup_rows hc (hashing_fits hσ)).filter (·.project == project)
  have hnodup' := (hy.tidy.nodup_rows hc (hashing_fits hτ)).filter (·.project == project)
  refine congrArg Except.ok (byPosition_congr ((List.perm_ext_iff_of_nodup hnodup hnodup').2 fun r => ?_)
    fun r hr q hq => ?_)
  · rw [List.mem_filter, List.mem_filter, beq_iff_eq]
    exact (hx.mem_rows hc hσ).trans (hy.mem_rows hc hτ).symm
  · obtain ⟨hr, hproject⟩ := List.mem_filter.1 hr
    obtain ⟨hq, hproject'⟩ := List.mem_filter.1 hq
    exact hx.tidy.eq_of_place hc (hashing_fits hσ) hr hq ((beq_iff_eq.1 hproject).trans (beq_iff_eq.1 hproject').symm)

end Indexer

end CodeIndex
