import CodeIndex.Indexing.Indexer
import CodeIndex.Proofs.Chunk.Split
import CodeIndex.Proofs.Embedding.Outcome
import CodeIndex.Proofs.Files.Naming
import Mathlib.Data.Set.Function

/-!
Stores in order. For each entry there is a content with its fingerprint, and the records of its file are just those
of that content. Replacing a file, dropping one and clearing a project keep a store in order, and replacing a file
never stops half way.
-/

namespace CodeIndex

open CodeIndex.Embedding Files

/-- What may occur in an index: projects with paths, which have identifiers of their own, contents of files, and the
numbers of their chunks, which are no more than the size of contents allows. -/
structure Scope where
  keys : Set (String × String)
  contents : Set ByteArray
  /-- No content is larger. -/
  size : Nat
  small : ∀ content ∈ contents, content.size ≤ size
  fileIds : Set.InjOn (fun k : String × String => fileId k.1 k.2) keys
  chunkIds : Set.InjOn (fun k : (String × String) × Nat => chunkId k.1.1 k.1.2 k.2) {k | k.1 ∈ keys ∧ k.2 < max 1 size}

theorem Scope.chunkId_inj (S : Scope) {k l : String × String} {i j : Nat} (hk : k ∈ S.keys)
    (hi : i < max 1 S.size) (hl : l ∈ S.keys) (hj : j < max 1 S.size) (he : chunkId k.1 k.2 i = chunkId l.1 l.2 j) :
    k = l ∧ i = j :=
  Prod.mk.inj (S.chunkIds (show (k, i) ∈ _ from ⟨hk, hi⟩) (show (l, j) ∈ _ from ⟨hl, hj⟩) he)

theorem Scope.fileId_inj (S : Scope) {k l : String × String} (hk : k ∈ S.keys) (hl : l ∈ S.keys)
    (he : fileId k.1 k.2 = fileId l.1 l.2) : k = l := S.fileIds hk hl he

/-- What is embedded for a file. -/
def IndexerConfig.prepared (c : IndexerConfig) (project : String) (f : Discovered) (language : Language) : Prepared :=
  ⟨entryOf project f language, (Chunk.parseBytes language f.content (c.parser language)).chunks⟩

/-- The syntax trees of a configuration lie within their texts. -/
def IndexerConfig.ParserFits (c : IndexerConfig) : Prop :=
  ∀ language content root, c.parser language content = some root → root.FitsIn content

/-- The records of a file in the vectors that its batches were answered with. -/
def Embedding.Prepared.records (c : PipelineConfig) (p : Prepared) (embedded : List Embedded) : List Record :=
  (Job.ofPrepared c 0 p).records p.file.project embedded

namespace Embedding

/-- Answers that records can be made of: a vector for each text, of a length that the store lets in. -/
def Contract.Fits {c : PipelineConfig} {σ : Store.Settings} (k : Contract c σ) : Prop :=
  ∀ texts e, k.answer texts (.ok e) → e.vectors.length = texts.length ∧
    ∀ v ∈ e.vectors, v.size = e.signature.dimensions ∧ σ.Admits v.size

variable {c : PipelineConfig} {σ : Store.Settings} {k : Contract c σ} {p : Prepared} {embedded : List Embedded}

/-- The batches of a file are answered. -/
def Contract.Answers (k : Contract c σ) (p : Prepared) (embedded : List Embedded) : Prop :=
  List.Forall₂ (fun texts e => k.answer texts (.ok e)) (p.groups c) embedded

/-- Answers with a vector for each text of their batches. -/
def Prepared.Fills (c : PipelineConfig) (p : Prepared) (embedded : List Embedded) : Prop :=
  List.Forall₂ (fun texts e => e.vectors.length = texts.length) (p.groups c) embedded

/-- The vectors of answers, each with the signature of its answer. -/
def signed (embedded : List Embedded) : List (List (Vec × Signature)) :=
  embedded.map fun e => e.vectors.map (·, e.signature)

theorem records_eq_zip (c : PipelineConfig) (project : String) (p : Prepared) (embedded : List Embedded) :
    (Job.ofPrepared c 0 p).records project embedded = ((p.pieces c).zip (signed embedded).flatten).map
      fun (chunk, vector, signature) => recordOf project p.file chunk vector signature := rfl

namespace Prepared.Fills

theorem lengths (h : p.Fills c embedded) : (signed embedded).map List.length = (p.groups c).map List.length := by
  rw [signed, List.map_map, ← List.forall₂_eq_eq_eq, List.forall₂_map_left_iff, List.forall₂_map_right_iff]
  exact h.flip.imp fun e texts he => by simpa using he

/-- Each chunk of a file gets a vector. -/
theorem length_flatten (h : p.Fills c embedded) : (signed embedded).flatten.length = (p.pieces c).length := by
  rw [List.length_flatten, h.lengths, ← List.length_flatten, groups, Embedding.flatten_grouped (Nat.le_max_left ..),
    List.length_map]

/-- What records have of their chunks they have in the order of the chunks. -/
theorem map_records {β : Type} (h : p.Fills c embedded) (project : String) (f : Record → β) (g : Chunk → β)
    (hfg : ∀ chunk vector signature, f (recordOf project p.file chunk vector signature) = g chunk) :
    ((Job.ofPrepared c 0 p).records project embedded).map f = (p.pieces c).map g := by
  have hfirst := List.map_fst_zip (Nat.le_of_eq h.length_flatten.symm)
  rw [records_eq_zip, List.map_map, ← hfirst, List.map_map, hfirst]
  exact List.map_congr_left fun x _ => hfg x.1 x.2.1 x.2.2

theorem length_records (h : p.Fills c embedded) (project : String) :
    ((Job.ofPrepared c 0 p).records project embedded).length = (p.pieces c).length := by
  rw [records_eq_zip, List.length_map, List.length_zip, h.length_flatten, Nat.min_self]

/-- Records are numbered in the order in which they are made. -/
theorem numbered (h : p.Fills c embedded) (project : String) :
    ((Job.ofPrepared c 0 p).records project embedded).Pairwise fun r q => r.path = q.path ∧ r.index < q.index := by
  have hindex : ((Job.ofPrepared c 0 p).records project embedded).map (·.index) = List.range (p.pieces c).length := by
    rw [h.map_records project (·.index) (·.index) fun _ _ _ => rfl]
    exact Chunk.index_splitOversized ..
  have hpath : ∀ r ∈ (Job.ofPrepared c 0 p).records project embedded, r.path = p.file.path := by
    intro r hr
    obtain ⟨x, -, rfl⟩ := List.mem_map.1 hr
    rfl
  refine List.Pairwise.imp_of_mem (fun {r q} hr hq hlt => ⟨(hpath r hr).trans (hpath q hq).symm, hlt⟩) ?_
  rw [← List.pairwise_map (f := Record.index) (R := (· < ·)), hindex]
  exact List.pairwise_lt_range

end Prepared.Fills

theorem Contract.Answers.fills (hk : k.Fits) (h : k.Answers p embedded) : p.Fills c embedded :=
  h.imp fun texts e ha => (hk texts e ha).1

theorem map_records {β : Type} (hk : k.Fits) (h : k.Answers p embedded) (f : Record → β) (g : Chunk → β)
    (hfg : ∀ chunk vector signature, f (recordOf p.file.project p.file chunk vector signature) = g chunk) :
    (p.records c embedded).map f = (p.pieces c).map g := (h.fills hk).map_records p.file.project f g hfg

/-- Every record of a file is that of one of its chunks, with a vector of an answer. -/
theorem mem_jobRecords {project : String} (h : k.Answers p embedded) {r : Record}
    (hr : r ∈ (Job.ofPrepared c 0 p).records project embedded) :
    ∃ chunk ∈ p.pieces c, ∃ texts e, k.answer texts (.ok e) ∧
      ∃ vector ∈ e.vectors, r = recordOf project p.file chunk vector e.signature := by
  obtain ⟨⟨chunk, vector, signature⟩, hm, rfl⟩ := List.mem_map.1 hr
  obtain ⟨hc, hv⟩ := List.of_mem_zip hm
  obtain ⟨e, he, hv⟩ := List.mem_flatMap.1 hv
  obtain ⟨v, hve, heq⟩ := List.mem_map.1 hv
  cases heq
  have hall : ∀ e ∈ embedded, ∃ texts, k.answer texts (.ok e) := by
    have hflip := h.flip
    refine ((List.forall₂_and_left (R := fun _ _ => True) embedded (p.groups c)).1 ?_).1
    exact hflip.imp fun e texts ha => ⟨⟨texts, ha⟩, trivial⟩
  obtain ⟨texts, ha⟩ := hall e he
  exact ⟨chunk, hc, texts, e, ha, vector, hve, rfl⟩

theorem mem_records (h : k.Answers p embedded) {r : Record} (hr : r ∈ p.records c embedded) :
    ∃ chunk ∈ p.pieces c, ∃ texts e, k.answer texts (.ok e) ∧
      ∃ vector ∈ e.vectors, r = recordOf p.file.project p.file chunk vector e.signature := mem_jobRecords h hr

end Embedding

variable {c : IndexerConfig} {σ : Store.Settings} {k : Contract c.pipeline σ} {S : Scope} {s s' : Store}
  {m : FileEntry} {p : Prepared} {embedded : List Embedded}

/-- Files that are prepared as they are read, with a name and a content of the scope. -/
structure Scope.Admits (S : Scope) (c : IndexerConfig) (p : Prepared) : Prop where
  key : (p.file.project, p.file.path) ∈ S.keys
  normal : normalizePath p.file.path = p.file.path
  read : ∃ f language, p = c.prepared p.file.project f language ∧ f.content ∈ S.contents ∧ Language.Suits f.rel language

/-- Columns hold all numbers that occur in the scope. -/
def Scope.Suits (S : Scope) (σ : Store.Settings) : Prop := σ.bounded = true → S.size < 2 ^ 63

/-- Records that are just those of a file. -/
def Filed (k : Contract c.pipeline σ) (S : Scope) (p : Prepared) (rs : List Record) : Prop :=
  S.Admits c p ∧ ∃ embedded, k.Answers p embedded ∧ rs = p.records c.pipeline embedded

/-- The place of a record in its file. -/
structure Record.Belongs (σ : Store.Settings) (S : Scope) (m : FileEntry) (r : Record) : Prop where
  fileId : r.fileId = m.id
  project : r.project = m.project
  path : r.path = m.path
  id : r.id = chunkId m.project m.path r.index
  index : r.index < max 1 S.size
  dimensions : r.vector.size = r.dimensions
  admitted : σ.Admits r.dimensions
  startLine : r.startLine ≤ max 1 S.size
  endLine : r.endLine ≤ max 1 S.size

theorem Scope.Admits.id_eq (hp : S.Admits c p) : p.file.id = fileId p.file.project p.file.path := by
  obtain ⟨f, language, he, -⟩ := hp.read
  have hpath : p.file.path = f.rel := congrArg (·.file.path) he
  rw [hpath]
  exact congrArg (·.file.id) he

/-- A file has no more chunks than its content has bytes, and no more lines. -/
theorem pieces_prepared (hc : c.ParserFits) (project : String) (f : Discovered) (language : Language) :
    ∀ chunk ∈ (c.prepared project f language).pieces c.pipeline,
      chunk.index < max 1 f.content.size ∧ chunk.startLine ≤ max 1 f.content.size ∧
        chunk.endLine ≤ max 1 f.content.size := by
  intro chunk hchunk
  obtain ⟨hlen, hin⟩ := Chunk.pieces_of_file language f.content (c.parser language)
    (fun _ root _ h => hc language _ root h) c.pipeline.maxChunkSize c.pipeline.overlapLines
  have hi := Chunk.index_lt_of_mem hchunk
  obtain ⟨h₁, h₂, h₃⟩ := hin chunk hchunk
  exact ⟨Nat.lt_of_lt_of_le hi hlen, by omega, by omega⟩

theorem Scope.Admits.pieces (hp : S.Admits c p) (hc : c.ParserFits) :
    ∀ chunk ∈ p.pieces c.pipeline,
      chunk.index < max 1 S.size ∧ chunk.startLine ≤ max 1 S.size ∧ chunk.endLine ≤ max 1 S.size := by
  obtain ⟨f, language, he, hcontent, -⟩ := hp.read
  have hsize := S.small f.content hcontent
  rw [he]
  intro chunk hchunk
  obtain ⟨h₁, h₂, h₃⟩ := pieces_prepared hc _ f language chunk hchunk
  omega

theorem belongs_of_mem_records (hc : c.ParserFits) (hk : k.Fits) (hp : S.Admits c p) (ha : k.Answers p embedded)
    {r : Record} (hr : r ∈ p.records c.pipeline embedded) : r.Belongs σ S p.file := by
  obtain ⟨chunk, hchunk, texts, e, he, vector, hv, rfl⟩ := mem_records ha hr
  obtain ⟨hi, hstart, hend⟩ := hp.pieces hc chunk hchunk
  exact ⟨rfl, rfl, rfl, rfl, hi, rfl, ((hk texts e he).2 vector hv).2, hstart, hend⟩

theorem nodup_ids_records (hc : c.ParserFits) (hk : k.Fits) (hp : S.Admits c p) (ha : k.Answers p embedded) :
    ((p.records c.pipeline embedded).map (·.id)).Nodup := by
  have hnodup : ((p.records c.pipeline embedded).map (·.index)).Nodup :=
    List.pairwise_map.2 (((ha.fills hk).numbered p.file.project).imp fun hrq => hrq.2.ne)
  refine List.Nodup.map_on (fun r hr q hq he => ?_) hnodup.of_map
  have hbr := belongs_of_mem_records hc hk hp ha hr
  have hbq := belongs_of_mem_records hc hk hp ha hq
  have hi := (S.chunkId_inj hp.key hbr.index hp.key hbq.index (hbr.id.symm.trans (he.trans hbq.id))).2
  exact List.inj_on_of_nodup_map hnodup hr hq hi

/-- Entries under identifiers and names of their own. -/
structure Store.Keyed (S : Scope) (s : Store) : Prop where
  sane : s.Sane
  ids : (s.entries.map (·.id)).Nodup
  keyed : ∀ m ∈ s.entries, (m.project, m.path) ∈ S.keys ∧ m.id = fileId m.project m.path

/-- Entries with their records, as they should be. -/
structure Store.Tidy (k : Contract c.pipeline σ) (S : Scope) (s : Store) : Prop extends s.Keyed S where
  settings : s.settings = σ
  filed : ∀ m ∈ s.entries, ∃ p : Prepared, p.file = m ∧ Filed k S p (s.rows.filter (·.fileId == m.id))
  owned : ∀ r ∈ s.rows, ∃ m ∈ s.entries, m.id = r.fileId

/-- Entries with the same project and path are the same. -/
theorem Store.Keyed.entry_eq (h : s.Keyed S) {g : FileEntry} (hm : m ∈ s.entries) (hg : g ∈ s.entries)
    (hproject : m.project = g.project) (hpath : m.path = g.path) : m = g := by
  refine List.inj_on_of_nodup_map h.ids hm hg ?_
  rw [(h.keyed m hm).2, (h.keyed g hg).2, hproject, hpath]

/-- An identifier tells project and path. -/
theorem Store.Keyed.id_eq_iff (h : s.Keyed S) (hm : m ∈ s.entries) (hp : S.Admits c p) :
    m.id = p.file.id ↔ m.project = p.file.project ∧ m.path = p.file.path := by
  obtain ⟨hkey, hid⟩ := h.keyed m hm
  rw [hid, hp.id_eq]
  refine ⟨fun he => ?_, fun he => by rw [he.1, he.2]⟩
  exact Prod.mk.inj (S.fileId_inj hkey hp.key he)

theorem Store.Tidy.belongs (h : s.Tidy k S) (hc : c.ParserFits) (hk : k.Fits) {r : Record} (hr : r ∈ s.rows) :
    ∃ m ∈ s.entries, r.Belongs σ S m := by
  obtain ⟨m, hm, hid⟩ := h.owned r hr
  obtain ⟨p, rfl, hp, embedded, ha, hrs⟩ := h.filed m hm
  refine ⟨p.file, hm, belongs_of_mem_records hc hk hp ha ?_⟩
  rw [← hrs]
  exact List.mem_filter.2 ⟨hr, beq_iff_eq.2 hid.symm⟩

theorem putAll_ok {rs : List Record} (hn : (rs.map (·.id)).Nodup) (hnew : ∀ r ∈ rs, ∀ q ∈ s.rows, q.id ≠ r.id)
    (hfits : ∀ r ∈ rs, s.settings.Fits r) :
    ∃ s', putAll s rs = (s', .ok ()) ∧ s'.rows = s.rows ++ rs ∧ s'.entries = s.entries ∧ s.Keeps s' := by
  induction rs generalizing s with
  | nil => exact ⟨s, rfl, (List.append_nil _).symm, rfl, .refl s⟩
  | cons r rs ih =>
    have hr := List.mem_cons_self (a := r) (l := rs)
    obtain ⟨s₁, hput, hrows, hentries, hkeeps⟩ := Store.put_new (hnew r hr) (hfits r hr)
    obtain ⟨hnot, hn⟩ := List.nodup_cons.1 hn
    have hσ := hkeeps.settings
    obtain ⟨s₂, hall, hrows₂, hentries₂, hkeeps₂⟩ := ih (s := s₁) hn (fun q hq r' hr' => by
        rw [hrows] at hr'
        rcases List.mem_append.1 hr' with hr' | hr'
        · exact hnew q (List.mem_cons_of_mem _ hq) r' hr'
        · rw [List.mem_singleton.1 hr']
          exact fun heq => hnot (List.mem_map.2 ⟨q, hq, heq.symm⟩))
      (fun q hq => hσ ▸ hfits q (List.mem_cons_of_mem _ hq))
    refine ⟨s₂, ?_, ?_, hentries₂.trans hentries, hkeeps.trans hkeeps₂⟩
    · rw [putAll, hput]
      exact hall
    · rw [hrows₂, hrows, List.append_assoc, List.singleton_append]

theorem mem_withEntry (h : s.Keyed S) {f : FileEntry} :
    m ∈ Store.withEntry f s.entries ↔ m = f ∨ (m ∈ s.entries ∧ m.id ≠ f.id) := by
  rw [(Store.withEntry_perm h.ids).mem_iff, List.mem_cons, List.mem_filter, bne_iff_ne]

theorem Store.Keyed.withEntry (h : s.Keyed S) (hp : S.Admits c p) (hs : s'.Sane)
    (he : s'.entries = Store.withEntry p.file s.entries) : s'.Keyed S := by
  refine ⟨hs, ?_, fun m hm => ?_⟩
  · rw [he, ((Store.withEntry_perm h.ids).map (·.id)).nodup_iff]
    exact Store.nodup_replaced p.file h.ids
  · rw [he, mem_withEntry h] at hm
    rcases hm with rfl | ⟨hm, -⟩
    · exact ⟨hp.key, hp.id_eq⟩
    · exact h.keyed m hm

/-- A store in order takes all records of a file, and its entry. -/
theorem persist_ok (hc : c.ParserFits) (hk : k.Fits) (hS : S.Suits σ) (h : s.Tidy k S) (hp : S.Admits c p)
    (ha : k.Answers p embedded) :
    ∃ s', persist s p.file (p.records c.pipeline embedded) = (s', .ok ()) ∧
      s'.entries = Store.withEntry p.file s.entries ∧
      s'.rows = s.rows.filter (·.fileId != p.file.id) ++ p.records c.pipeline embedded ∧ s.Keeps s' := by
  have hbelongs := fun r hr => belongs_of_mem_records (r := r) hc hk hp ha hr
  have hbound : ∀ n, n ≤ max 1 S.size → σ.Holds n := fun n hn hb => by
    have := hS hb
    omega
  have hdeleted := Store.keeps_deleteRecords s p.file.id
  have hσ : (s.deleteRecords p.file.id).1.settings = σ := hdeleted.settings.trans h.settings
  -- no record of another file has the identifier of one of these
  have hnew : ∀ r ∈ p.records c.pipeline embedded, ∀ q ∈ (s.deleteRecords p.file.id).1.rows, q.id ≠ r.id := by
    intro r hr q hq hid
    rw [Store.rows_deleteRecords] at hq
    obtain ⟨hq, hne⟩ := List.mem_filter.1 hq
    obtain ⟨m, hm, hb⟩ := h.belongs hc hk hq
    obtain ⟨hkey, hmid⟩ := h.keyed m hm
    have hkeys := (S.chunkId_inj hkey hb.index hp.key (hbelongs r hr).index
      (hb.id.symm.trans (hid.trans (hbelongs r hr).id))).1
    obtain ⟨hproject, hpath⟩ := Prod.mk.inj hkeys
    refine bne_iff_ne.1 hne ?_
    rw [hb.fileId, hmid, hproject, hpath, hp.id_eq]
  have hfits : ∀ r ∈ p.records c.pipeline embedded, σ.Fits r := fun r hr =>
    ⟨(hbelongs r hr).admitted, hbound _ (hbelongs r hr).index.le, hbound _ (hbelongs r hr).startLine,
      hbound _ (hbelongs r hr).endLine⟩
  obtain ⟨s₁, hput, hrows, hentries, hkeeps⟩ := putAll_ok (nodup_ids_records hc hk hp ha) hnew (hσ ▸ hfits)
  rw [Store.entries_deleteRecords] at hentries
  have hσ₁ : s₁.settings = σ := hkeeps.settings.trans hσ
  obtain ⟨hsize, hlines⟩ : σ.Holds p.file.size ∧ σ.Holds p.file.lineCount := by
    obtain ⟨f, language, he, hcontent, -⟩ := hp.read
    have hsmall := S.small f.content hcontent
    have hlen := Text.length_lines_decodeLossy_le f.content
    have hsize : p.file.size = f.content.size := by rw [he]; rfl
    have hlines : p.file.lineCount = (Text.lines (Text.decodeLossy f.content)).length := by rw [he]; rfl
    exact ⟨hbound _ (by omega), hbound _ (by omega)⟩
  obtain ⟨s₂, hfile, hentries₂, hrows₂, hkeeps₂⟩ := Store.putFile_ok (s := s₁) hp.normal
    (fun g hg => h.id_eq_iff (hentries ▸ hg) hp) (hσ₁ ▸ hsize) (hσ₁ ▸ hlines)
  refine ⟨s₂, ?_, by rw [hentries₂, hentries], ?_, hdeleted.trans (hkeeps.trans hkeeps₂)⟩
  · unfold persist
    rw [hput]
    dsimp only
    rw [hfile]
  · rw [hrows₂, hrows, Store.rows_deleteRecords]

/-- With its records replaced a store is still in order. -/
theorem Store.Tidy.persisted (h : s.Tidy k S) (hc : c.ParserFits) (hk : k.Fits) (hp : S.Admits c p)
    (ha : k.Answers p embedded) (he : s'.entries = Store.withEntry p.file s.entries)
    (hr : s'.rows = s.rows.filter (·.fileId != p.file.id) ++ p.records c.pipeline embedded) (hkeeps : s.Keeps s') :
    s'.Tidy k S := by
  have hown : ∀ r ∈ p.records c.pipeline embedded, r.fileId = p.file.id := fun r hr =>
    (belongs_of_mem_records hc hk hp ha hr).fileId
  refine ⟨h.toKeyed.withEntry hp (hkeeps.sane h.sane) he, hkeeps.settings.trans h.settings, fun m hm => ?_,
    fun r hm => ?_⟩
  · rw [he, mem_withEntry h.toKeyed] at hm
    rw [hr, List.filter_append, List.filter_filter]
    rcases hm with rfl | ⟨hm, hne⟩
    · refine ⟨p, rfl, hp, embedded, ha, ?_⟩
      rw [List.filter_eq_nil_iff.2 fun r _ => by simp, List.filter_eq_self.2 fun r hr => beq_iff_eq.2 (hown r hr),
        List.nil_append]
    · have hold : ∀ r ∈ s.rows, (r.fileId == m.id && r.fileId != p.file.id) = (r.fileId == m.id) := by
        intro r _
        by_cases hid : r.fileId = m.id <;> simp [hid, hne]
      have hnew : (p.records c.pipeline embedded).filter (·.fileId == m.id) = [] :=
        List.filter_eq_nil_iff.2 fun r hr => by simpa [hown r hr] using hne.symm
      rw [List.filter_congr hold, hnew, List.append_nil]
      exact h.filed m hm
  · rw [hr] at hm
    simp only [he, mem_withEntry h.toKeyed]
    rcases List.mem_append.1 hm with hm | hm
    · obtain ⟨hm, hne⟩ := List.mem_filter.1 hm
      obtain ⟨m, hm', hid⟩ := h.owned r hm
      exact ⟨m, .inr ⟨hm', hid ▸ bne_iff_ne.1 hne⟩, hid⟩
    · exact ⟨p.file, .inl rfl, (hown r hm).symm⟩

/-- Dropping all of some files, entries and records, leaves the others in order. -/
theorem Store.Tidy.dropped (h : s.Tidy k S) (keep : String → Bool) (hkeeps : s.Keeps s')
    (he : s'.entries = s.entries.filter fun m => keep m.id) (hr : s'.rows = s.rows.filter fun r => keep r.fileId) :
    s'.Tidy k S := by
  refine ⟨⟨hkeeps.sane h.sane, ?_, fun m hm => ?_⟩, hkeeps.settings.trans h.settings, fun m hm => ?_, fun r hm => ?_⟩
  · rw [he]
    exact h.ids.sublist (List.filter_sublist.map _)
  · rw [he] at hm
    exact h.keyed m (List.mem_of_mem_filter hm)
  · rw [he] at hm
    obtain ⟨hm, hkeep⟩ := List.mem_filter.1 hm
    rw [hr, List.filter_filter, List.filter_congr fun r _ => show _ = (r.fileId == m.id) by
      by_cases hid : r.fileId = m.id <;> simp [hid, hkeep]]
    exact h.filed m hm
  · rw [hr] at hm
    obtain ⟨hm, hkeep⟩ := List.mem_filter.1 hm
    obtain ⟨m, hm', hid⟩ := h.owned r hm
    exact ⟨m, he ▸ List.mem_filter.2 ⟨hm', hid ▸ hkeep⟩, hid⟩

theorem Store.Tidy.widened (h : s.Tidy k S) (hw : Relation.ReflTransGen Store.Widening s s') : s'.Tidy k S := by
  obtain ⟨hr, he, hkeeps⟩ := Store.widenings_spec hw h.sane
  exact h.dropped (fun _ => true) hkeeps (by rw [he, List.filter_true]) (by rw [hr, List.filter_true])

theorem Store.Tidy.deleteFile (h : s.Tidy k S) (id : String) : (s.deleteFile id).Tidy k S :=
  h.dropped (· != id) (Store.keeps_deleteFile s id) (Store.entries_deleteFile s id) (Store.rows_deleteFile s id)

/-- The records of a project are those of its files, so they go together. -/
theorem Store.Tidy.clear (h : s.Tidy k S) (hc : c.ParserFits) (hk : k.Fits) (project : String) :
    (s.clear project).1.Tidy k S := by
  have hentry : ∀ m ∈ s.entries,
      (s.entries.any fun g => g.id == m.id && g.project != project) = (m.project != project) := by
    intro m hm
    rw [Bool.eq_iff_iff, List.any_eq_true]
    constructor
    · rintro ⟨g, hg, hh⟩
      rw [Bool.and_eq_true, beq_iff_eq] at hh
      rw [← List.inj_on_of_nodup_map h.ids hg hm hh.1]
      exact hh.2
    · exact fun hne => ⟨m, hm, by rw [beq_self_eq_true, hne]; rfl⟩
  refine h.dropped (fun id => s.entries.any fun g => g.id == id && g.project != project)
    (Store.keeps_clear s project) ?_ ?_
  · rw [Store.entries_clear]
    exact List.filter_congr fun m hm => (hentry m hm).symm
  · rw [Store.rows_clear]
    refine List.filter_congr fun r hr => ?_
    obtain ⟨m, hm, hb⟩ := h.belongs hc hk hr
    rw [hb.fileId, hentry m hm, hb.project]

end CodeIndex
