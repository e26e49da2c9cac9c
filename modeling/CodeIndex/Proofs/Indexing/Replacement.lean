import CodeIndex.Proofs.Embedding.Origin
import CodeIndex.Proofs.Indexing.Order
import CodeIndex.Proofs.Indexing.Written

/-!
What a file that was embedded leaves. Its records are replaced by those of its chunks, each in the vector at the place of
the chunk in the answer to its batch, whichever provider gave it; its entry is put, and other files keep all they have.
-/

namespace CodeIndex

open CodeIndex.Embedding

variable {s s' : Store} {file : FileEntry} {rs : List Record}

/-- Records that a store takes for a file come in the place of those that it had for the file, and its entry in the place
of that with its identifier. -/
theorem persist_replaces (h : s.Distinct) (hp : persist s file rs = (s', .ok ())) (hn : (rs.map (·.id)).Nodup)
    (hid : ∀ q ∈ s.rows, q.fileId ≠ file.id → ∀ r ∈ rs, q.id ≠ r.id) :
    s'.rows.Perm (s.rows.filter (·.fileId != file.id) ++ rs) ∧
      ∃ g, s.settings.filed s.entries file = .ok g ∧ s'.entries.Perm (g :: s.entries.filter (·.id != file.id)) := by
  obtain ⟨-, -, hresult, hrows, hentries⟩ := persist_spec h hn hp
  have htaken : s.taken rs = rs := taken_of_persist hp
  have hapart : (s.rows.filter (·.fileId != file.id)).filter (fun q => decide (q.id ∉ rs.map (·.id))) =
      s.rows.filter (·.fileId != file.id) := by
    refine List.filter_eq_self.2 fun q hq => decide_eq_true fun hm => ?_
    obtain ⟨hq, hne⟩ := List.mem_filter.1 hq
    obtain ⟨r, hr, he⟩ := List.mem_map.1 hm
    exact hid q hq (bne_iff_ne.1 hne) r hr he.symm
  rw [htaken, replacedBy, hapart] at hrows
  refine ⟨hrows, ?_⟩
  unfold Store.filing at hresult hentries
  split at hresult
  · cases hresult
  · cases hfiled : s.settings.filed s.entries file with
    | error e =>
      rw [hfiled] at hresult
      cases hresult
    | ok g =>
      rename_i hall
      rw [hall] at hentries
      dsimp only at hentries
      rw [hfiled] at hentries
      refine ⟨g, rfl, hentries.trans ?_⟩
      rw [← (Store.filed_cases hfiled).1]
      exact replacedBy_singleton

namespace Embedding

variable {c : PipelineConfig} {project : String} {p : Prepared} {o : Outcome} {answers : List Embedded} {w : World}

/-- How many texts go into a batch, but for the last one. -/
def PipelineConfig.batch (c : PipelineConfig) : Nat := max 1 c.batchSize

theorem PipelineConfig.one_le_batch (c : PipelineConfig) : 1 ≤ c.batch := Nat.le_max_left ..

/-- A chunk gets the vector at its place of the answer to the batch that its text is in. -/
structure Prepared.Aligned (c : PipelineConfig) (p : Prepared) (answers : List Embedded) (i : Nat) (chunk : Chunk)
    (vector : Vec) (signature : Signature) : Prop where
  text : ∃ texts, (p.groups c)[i / c.batch]? = some texts ∧
    texts[i % c.batch]? = some (chunk.contextualize p.file.path p.file.language)
  vector : ∃ e, answers[i / c.batch]? = some e ∧ e.vectors[i % c.batch]? = some vector ∧ e.signature = signature

theorem Prepared.groups_eq (c : PipelineConfig) (p : Prepared) :
    p.groups c = grouped c.batch ((p.pieces c).map (Chunk.contextualize p.file.path p.file.language)) := rfl

/-- The place of a chunk tells the batch that its text is in, and its place there. -/
theorem Prepared.text_of_piece {i : Nat} {chunk : Chunk} (h : (p.pieces c)[i]? = some chunk) :
    ∃ texts, (p.groups c)[i / c.batch]? = some texts ∧
      texts[i % c.batch]? = some (chunk.contextualize p.file.path p.file.language) := by
  rw [groups_eq, ← Option.bind_eq_some_iff, getElem?_grouped c.one_le_batch, List.getElem?_map, h]
  rfl

/-- However the texts were cut into batches, each chunk finds its vector. -/
theorem Prepared.Fills.aligned (h : p.Fills c answers) (project : String) {i : Nat} {chunk : Chunk}
    (hi : (p.pieces c)[i]? = some chunk) :
    ∃ vector signature, p.Aligned c answers i chunk vector signature ∧
      ((Job.ofPrepared c 0 p).records project answers)[i]? =
        some (recordOf project p.file chunk vector signature) := by
  obtain ⟨texts, htexts, htext⟩ := text_of_piece hi
  -- the batch of its text has an answer, and that has a vector for it
  obtain ⟨hgroup, hget⟩ := List.getElem?_eq_some_iff.1 htexts
  obtain ⟨hplace, -⟩ := List.getElem?_eq_some_iff.1 htext
  have hanswer : i / c.batch < answers.length := h.length_eq ▸ hgroup
  have hlength := h.get hgroup hanswer
  rw [List.get_eq_getElem, List.get_eq_getElem, hget] at hlength
  rw [← hlength] at hplace
  refine ⟨answers[i / c.batch].vectors[i % c.batch], answers[i / c.batch].signature,
    ⟨⟨_, htexts, htext⟩, _, List.getElem?_eq_getElem hanswer, List.getElem?_eq_getElem hplace, rfl⟩, ?_⟩
  have hfilled : Filled c.batch ((signed answers).map List.length) := by
    rw [h.lengths]
    exact filled_grouped c.one_le_batch _
  have hvector : (signed answers).flatten[i]? =
      some (answers[i / c.batch].vectors[i % c.batch], answers[i / c.batch].signature) := by
    rw [getElem?_flatten_of_filled c.one_le_batch hfilled, signed, List.getElem?_map,
      List.getElem?_eq_getElem hanswer]
    simp [hplace]
  have hzip : ((p.pieces c).zip (signed answers).flatten)[i]? =
      some (chunk, answers[i / c.batch].vectors[i % c.batch], answers[i / c.batch].signature) :=
    List.getElem?_zip_eq_some.2 ⟨hi, hvector⟩
  rw [records_eq_zip, List.getElem?_map, hzip]
  rfl

theorem Prepared.index_piece {i : Nat} {chunk : Chunk} (h : (p.pieces c)[i]? = some chunk) : chunk.index = i := by
  have hindex := congrArg (·[i]?) (Chunk.index_splitOversized p.chunks c.maxChunkSize c.overlapLines)
  change ((p.pieces c).map (·.index))[i]? = (List.range (p.pieces c).length)[i]? at hindex
  rw [List.getElem?_map, h, List.getElem?_range (List.getElem?_eq_some_iff.1 h).1] at hindex
  exact Option.some.inj hindex

/-- A record is at the place that its number tells. -/
theorem Prepared.Fills.getElem?_index (h : p.Fills c answers) {r : Record}
    (hr : r ∈ (Job.ofPrepared c 0 p).records project answers) :
    ((Job.ofPrepared c 0 p).records project answers)[r.index]? = some r := by
  obtain ⟨i, hi, he⟩ := List.getElem_of_mem hr
  have hplace := List.getElem?_eq_getElem hi
  rw [he] at hplace
  obtain ⟨chunk, hchunk⟩ : ∃ chunk, (p.pieces c)[i]? = some chunk :=
    ⟨_, List.getElem?_eq_getElem (h.length_records project ▸ hi)⟩
  obtain ⟨vector, signature, -, hrecord⟩ := h.aligned project hchunk
  obtain rfl := Option.some.inj (hplace.symm.trans hrecord)
  rw [← index_piece hchunk] at hplace
  exact hplace

/-- What a store holds once the records of a file were replaced: those of other files as before, and of the file just one
for each chunk, which is aligned with the answers to its batches. There is one entry for it, which the store has made of
that of the file. -/
structure Prepared.Replaced (c : PipelineConfig) (project : String) (p : Prepared) (answers : List Embedded)
    (s s' : Store) : Prop where
  others : s'.rows.filter (·.fileId != p.file.id) = s.rows.filter (·.fileId != p.file.id)
  count : (s'.rows.filter (·.fileId == p.file.id)).length = (p.pieces c).length
  records : ∀ i chunk, (p.pieces c)[i]? = some chunk →
    ∃ vector signature, p.Aligned c answers i chunk vector signature ∧
      ∀ r, r ∈ s'.rows ∧ r.fileId = p.file.id ∧ r.index = i ↔ r = recordOf project p.file chunk vector signature
  entry : ∃ g, s.FiledAs p.file g ∧ s'.entries.Perm (g :: s.entries.filter (·.id != p.file.id))

theorem Prepared.Replaced.congr {t t' : Store} (h : p.Replaced c project answers s s') (hrows : t.rows = s.rows)
    (hentries : t.entries = s.entries) (hsettings : t.settings = s.settings) (hrows' : t'.rows = s'.rows)
    (hentries' : t'.entries = s'.entries) : p.Replaced c project answers t t' where
  others := by
    rw [hrows, hrows']
    exact h.others
  count := by
    rw [hrows']
    exact h.count
  records := by
    rw [hrows']
    exact h.records
  entry := by
    obtain ⟨g, hfiled, hperm⟩ := h.entry
    rw [hentries, hentries']
    exact ⟨g, ⟨hsettings ▸ hfiled.memory, hsettings ▸ hentries ▸ hfiled.known, hsettings ▸ hentries ▸ hfiled.new⟩, hperm⟩

/-- How a file came to be embedded: all its batches were answered, and a store `s₁` that is like `s` took its records,
which have identifiers apart from each other and from those of other files. -/
structure Prepared.Persists (c : PipelineConfig) (project : String) (p : Prepared) (answers : List Embedded)
    (s s₁ s₂ : Store) : Prop where
  fills : p.Fills c answers
  rows : s₁.rows = s.rows
  entries : s₁.entries = s.entries
  keeps : s.Keeps s₁
  distinct : s₁.Distinct
  ids : ((p.pieces c).map fun chunk => chunkId project p.file.path chunk.index).Nodup
  apart : ∀ q ∈ s₁.rows, q.fileId ≠ p.file.id → ∀ chunk ∈ p.pieces c, q.id ≠ chunkId project p.file.path chunk.index
  persisted : persist s₁ p.file ((Job.ofPrepared c 0 p).records project answers) = (s₂, .ok ())

theorem Prepared.Persists.recordsApart {s₁ s₂ : Store} (h : p.Persists c project answers s s₁ s₂) :
    ∀ q ∈ s₁.rows, q.fileId ≠ p.file.id →
      ∀ r ∈ (Job.ofPrepared c 0 p).records project answers, q.id ≠ r.id := by
  have hids : ((Job.ofPrepared c 0 p).records project answers).map (·.id) =
      (p.pieces c).map fun chunk => chunkId project p.file.path chunk.index :=
    h.fills.map_records project _ _ fun _ _ _ => rfl
  intro q hq hne r hr
  have hr := List.mem_map_of_mem (f := Record.id) hr
  rw [hids] at hr
  obtain ⟨chunk, hchunk, he⟩ := List.mem_map.1 hr
  rw [← he]
  exact h.apart q hq hne chunk hchunk

/-- The store has the records of the file then, and those of other files. -/
theorem Prepared.Persists.replaces {s₁ s₂ : Store} (h : p.Persists c project answers s s₁ s₂) :
    s₂.rows.Perm (s₁.rows.filter (·.fileId != p.file.id) ++ (Job.ofPrepared c 0 p).records project answers) ∧
      ∃ g, s₁.settings.filed s₁.entries p.file = .ok g ∧
        s₂.entries.Perm (g :: s₁.entries.filter (·.id != p.file.id)) := by
  refine persist_replaces h.distinct h.persisted ?_ h.recordsApart
  rw [h.fills.map_records project _ _ fun _ _ _ => rfl]
  exact h.ids

/-- A store that takes the records of a file holds just them for it. -/
theorem Prepared.Persists.replaced {s₁ s₂ : Store} (h : p.Persists c project answers s s₁ s₂) :
    p.Replaced c project answers s₁ s₂ := by
  have hown : ∀ r ∈ (Job.ofPrepared c 0 p).records project answers, r.fileId = p.file.id :=
    fun _ => fileId_of_mem_records
  obtain ⟨hrows, g, hfiled, hentries⟩ := h.replaces
  -- of the file there are the new records only
  have hfile : (s₂.rows.filter (·.fileId == p.file.id)).Perm ((Job.ofPrepared c 0 p).records project answers) := by
    refine (hrows.filter _).trans (.of_eq ?_)
    rw [List.filter_append, List.filter_filter, List.filter_eq_self.2 fun r hr => beq_iff_eq.2 (hown r hr)]
    simp
  refine ⟨others_persist h.persisted hown h.recordsApart, hfile.length_eq.trans (h.fills.length_records project),
    fun i chunk hi => ?_, g, Store.filedAs h.distinct.ids hfiled, hentries⟩
  obtain ⟨vector, signature, haligned, hrecord⟩ := h.fills.aligned project hi
  refine ⟨vector, signature, haligned, fun r => ⟨fun ⟨hr, hid, hindex⟩ => ?_, ?_⟩⟩
  · have hr := hfile.mem_iff.1 (List.mem_filter.2 ⟨hr, beq_iff_eq.2 hid⟩)
    have hplace := h.fills.getElem?_index hr
    rw [hindex, hrecord] at hplace
    exact (Option.some.inj hplace).symm
  · rintro rfl
    have hr := hfile.mem_iff.2 (List.mem_of_getElem? hrecord)
    exact ⟨List.mem_of_mem_filter hr, rfl, index_piece hi⟩

/-- Where one file is embedded and nothing else, it is how that file ended that is left, and told of. -/
theorem generate_ended (k : Contract c w.store.settings) (hf : k.floor w.providers w.health) (hs : w.store.Sane)
    (ho : o ∈ (w.generate c project [p] false).2.outcomes) :
    ∃ s₁ s₂, p.Ends k project s₁ s₂ o ∧ s₁.rows = w.store.rows ∧ s₁.entries = w.store.entries ∧ w.store.Keeps s₁ ∧
      (w.generate c project [p] false).1.store.rows = s₂.rows ∧
      (w.generate c project [p] false).1.store.entries = s₂.entries := by
  obtain ⟨log, ht, hlog, hfiles, -⟩ := generate_traced k hf hs project [p]
  have hlen := length_outcomes_le (c := c) hs project [p]
  rw [← hlog] at ho hlen
  obtain ⟨⟨q, o⟩, hx, rfl⟩ := List.mem_map.1 ho
  rw [List.length_map] at hlen
  obtain ⟨x, rfl⟩ := List.length_eq_one_iff.1 (Nat.le_antisymm hlen (List.length_pos_of_mem hx))
  obtain rfl := List.mem_singleton.1 hx
  obtain rfl : q = p := List.mem_singleton.1 (hfiles _ List.mem_cons_self)
  exact ht.single hs

/-- Where one file was embedded, its records were made of what providers of the chain answered its batches with, and a
store that is like the one before took them. -/
theorem generate_persisted (hs : w.store.Distinct)
    (hrows : ∀ r ∈ w.store.rows, r.id = chunkId r.project r.path r.index ∧ r.fileId = fileId r.project r.path)
    (hfile : p.file.id = fileId project p.file.path)
    (hkeys : Set.InjOn (Digest.Uuid.ofName idSpace)
      {key | (∃ r ∈ w.store.rows, key = chunkKey r.project r.path r.index) ∨
        ∃ chunk ∈ p.pieces c, key = chunkKey project p.file.path chunk.index})
    (ho : o ∈ (w.generate c project [p] false).2.outcomes) (he : o.error = none) :
    ∃ answers s₁ s₂, List.Forall₂ (Given w.providers) (p.groups c) answers ∧ o.chunks = (p.pieces c).length ∧
      o.embedded = (p.pieces c).length ∧ p.Persists c project answers w.store s₁ s₂ ∧
      (w.generate c project [p] false).1.store.rows = s₂.rows ∧
      (w.generate c project [p] false).1.store.entries = s₂.entries := by
  obtain ⟨s₁, s₂, ⟨results, ha, hend⟩, hrows₁, hentries₁, hkeeps, hrows₂, hentries₂⟩ :=
    generate_ended (.given c w.providers w.store.settings) (.refl w.providers) hs.sane ho
  obtain ⟨-, ⟨-, -, e, herror, -⟩ | ⟨-, answers, r, rfl, hpersist, hr⟩⟩ := finish_cases hend
  · cases he.symm.trans herror
  obtain rfl := hr.1 he
  have hgiven : List.Forall₂ (Given w.providers) (p.groups c) answers :=
    (List.forall₂_map_right_iff.1 ha).imp fun texts e h => h e rfl
  have hfills : p.Fills c answers := hgiven.imp fun _ _ h => h.length
  have hn : ((p.pieces c).map fun chunk => chunkId project p.file.path chunk.index).Nodup :=
    nodup_chunkIds hkeys fun chunk hchunk => .inr ⟨chunk, hchunk, rfl⟩
  have hapart : ∀ q ∈ s₁.rows, q.fileId ≠ p.file.id →
      ∀ chunk ∈ p.pieces c, q.id ≠ chunkId project p.file.path chunk.index := by
    intro q hq hne chunk hchunk hid
    rw [hrows₁] at hq
    obtain ⟨hqid, hqfile⟩ := hrows q hq
    have hkey := hkeys (.inl ⟨q, hq, rfl⟩) (.inr ⟨chunk, hchunk, rfl⟩) (hqid.symm.trans hid)
    refine hne ?_
    rw [hqfile, hfile, fileId, fileId, (fileKey_of_chunkKey hkey).1]
  obtain ⟨hchunks, hembedded⟩ := finish_embedded (j := Job.ofPrepared c 0 p) hpersist
  rw [hend] at hchunks hembedded
  exact ⟨answers, s₁, s₂, hgiven, hchunks, hembedded.trans (hfills.length_records project),
    ⟨hfills, hrows₁, hentries₁, hkeeps, hs.kept hentries₁ hrows₁ hkeeps, hn, hapart, hpersist⟩, hrows₂, hentries₂⟩

/-- A file that was embedded has all its records replaced, and its entry, and other files keep all they have. Each chunk
has one record, in the vector at its place of the answer that a provider of the chain gave to its batch, under that
provider's name; however many texts go into a batch, and whatever was stored before under identifiers that are derived
from project, path and number. -/
theorem generate_replaces (c : PipelineConfig) (w : World) (project : String) (p : Prepared) (o : Outcome)
    (hs : w.store.Distinct)
    (hrows : ∀ r ∈ w.store.rows, r.id = chunkId r.project r.path r.index ∧ r.fileId = fileId r.project r.path)
    (hfile : p.file.id = fileId project p.file.path)
    (hkeys : Set.InjOn (Digest.Uuid.ofName idSpace)
      {key | (∃ r ∈ w.store.rows, key = chunkKey r.project r.path r.index) ∨
        ∃ chunk ∈ p.pieces c, key = chunkKey project p.file.path chunk.index})
    (ho : o ∈ (w.generate c project [p] false).2.outcomes) (he : o.error = none) :
    o.chunks = (p.pieces c).length ∧ o.embedded = (p.pieces c).length ∧
      ∃ answers, List.Forall₂ (Given w.providers) (p.groups c) answers ∧
        p.Replaced c project answers w.store (w.generate c project [p] false).1.store := by
  obtain ⟨answers, s₁, s₂, hgiven, hchunks, hembedded, h, hrows₂, hentries₂⟩ :=
    generate_persisted hs hrows hfile hkeys ho he
  refine ⟨hchunks, hembedded, answers, hgiven, ?_⟩
  exact h.replaced.congr h.rows.symm h.entries.symm h.keeps.settings.symm hrows₂ hentries₂

/-- A record of before. -/
def recordAt (id fileId path content : String) : Record where
  id
  project := "p"
  fileId
  path
  index := 0
  content
  vector := #[.zero]
  dimensions := 1
  format := float32
  provider := "m0"
  hash := content
  startLine := 1
  endLine := 1
  symbolName := none
  symbolType := none
  language := "markdown"

/-- Two files with a record each. The first call of the first provider fails. -/
def twoStored : World where
  providers := [{ name := "m1", model := "mock-embed", dimensions := 2, script := [.fails (.permanent "m1" "down")],
                  settled := .vectors [#[.zero, .zero]] },
                { name := "m2", model := "mock-embed", dimensions := 3, settled := .vectors [#[.zero, .zero, .zero]] }]
  health := { config := ⟨3, 3600000, 3, 60000, 8⟩ }
  store := .memory {
    files := [(linesAt "8d1e43fc-f5ee-596a-8eb0-c9891723eb82" "a.md" ["old"]).file,
              (linesAt "4917da1c-bc35-593b-a621-5158aa47935c" "b.md" ["two"]).file]
    records := [recordAt "c7fc4797-c6b1-5ca3-bad3-8c48d81d1939" "8d1e43fc-f5ee-596a-8eb0-c9891723eb82" "a.md" "old",
                recordAt "ed5a82ba-6d0f-57c1-983e-b96b24a81313" "4917da1c-bc35-593b-a621-5158aa47935c" "b.md" "two"] }

/-- The first file, with two lines now. -/
def twoLines : Prepared := linesAt "8d1e43fc-f5ee-596a-8eb0-c9891723eb82" "a.md" ["one", "five"]

/-- Batches of one text. -/
def oneByOne : PipelineConfig := { Config.defaultEmbedding with batchSize := 1 }

/-- The record of the first file is replaced by those of its lines, which two providers have answered for in vectors of
two lengths; the record of the second file stays. -/
theorem generate_replaces_twoStored :
    ∃ w progress o answers, twoStored.generate oneByOne "p" [twoLines] false = (w, progress) ∧
      o ∈ progress.outcomes ∧ o.error = none ∧ o.embedded = 2 ∧
      List.Forall₂ (Given twoStored.providers) (twoLines.groups oneByOne) answers ∧
      twoLines.Replaced oneByOne "p" answers twoStored.store w.store ∧
      (w.store.rows.map fun r => (r.path, r.content, r.provider, r.dimensions)) =
        [("b.md", "two", "m0", 1), ("a.md", "one", "m2:mock-embed", 3), ("a.md", "five", "m1:mock-embed", 2)] := by
  have hrun : ((Run.start oneByOne twoStored [twoLines]).ends? oneByOne "p" 20).map (fun r => (r.outcomes.map (·.error),
      r.floor.store.rows.map fun r => (r.path, r.content, r.provider, r.dimensions))) =
      some ([none], [("b.md", "two", "m0", 1), ("a.md", "one", "m2:mock-embed", 3),
        ("a.md", "five", "m1:mock-embed", 2)]) := by decide +kernel
  obtain ⟨r, hr, he⟩ := Option.map_eq_some_iff.1 hrun
  obtain ⟨herrors, hrows⟩ := Prod.mk.inj he
  have hgenerate := generate_of_ends hr
  obtain ⟨o, ho, herror⟩ := List.map_eq_singleton_iff.1 herrors
  have hmem : o ∈ (twoStored.generate oneByOne "p" [twoLines] false).2.outcomes := by
    rw [hgenerate]
    exact ho ▸ List.mem_cons_self
  obtain ⟨ha, hb, ha₀, ha₁, hb₀⟩ := ids_of_two
  have hderived : ∀ q ∈ twoStored.store.rows,
      q.id = chunkId q.project q.path q.index ∧ q.fileId = fileId q.project q.path :=
    List.forall_mem_cons.2 ⟨⟨ha₀.symm, ha.symm⟩, List.forall_mem_cons.2 ⟨⟨hb₀.symm, hb.symm⟩, nofun⟩⟩
  have hold : ∀ q ∈ twoStored.store.rows, chunkKey q.project q.path q.index ∈
      [chunkKey "p" "a.md" 0, chunkKey "p" "a.md" 1, chunkKey "p" "b.md" 0] := by decide +kernel
  have hnew : ∀ chunk ∈ twoLines.pieces oneByOne, chunkKey "p" twoLines.file.path chunk.index ∈
      [chunkKey "p" "a.md" 0, chunkKey "p" "a.md" 1, chunkKey "p" "b.md" 0] := by decide +kernel
  have hkeys : Set.InjOn (Digest.Uuid.ofName idSpace)
      {key | (∃ q ∈ twoStored.store.rows, key = chunkKey q.project q.path q.index) ∨
        ∃ chunk ∈ twoLines.pieces oneByOne, key = chunkKey "p" twoLines.file.path chunk.index} := by
    refine Set.InjOn.mono ?_ fun x hx y hy => List.inj_on_of_nodup_map nodup_ids_of_two hx hy
    rintro _ (⟨q, hq, rfl⟩ | ⟨chunk, hchunk, rfl⟩)
    · exact hold q hq
    · exact hnew chunk hchunk
  have hlength : (twoLines.pieces oneByOne).length = 2 := by decide +kernel
  obtain ⟨-, hembedded, answers, hgiven, hreplaced⟩ := generate_replaces oneByOne twoStored "p" twoLines o
    ⟨trivial, by decide +kernel, by decide +kernel⟩ hderived ha.symm hkeys hmem herror
  rw [hgenerate] at hreplaced
  exact ⟨_, _, o, answers, hgenerate, ho ▸ List.mem_cons_self, herror, hembedded.trans hlength, hgiven, hreplaced,
    hrows⟩

/-- A file of one line, whose path is not in normal form; its identifier is that of the normal one. -/
def dotted : Prepared := linesAt "8d1e43fc-f5ee-596a-8eb0-c9891723eb82" "./a.md" ["one"]

/-- A table puts such a path into its normal form, so it does not hold the entry of the file as it was given. -/
theorem generate_replaces_dotted :
    ¬∀ (c : PipelineConfig) (w : World) (project : String) (p : Prepared) (o : Outcome), w.store.Distinct →
      (∀ r ∈ w.store.rows, r.id = chunkId r.project r.path r.index ∧ r.fileId = fileId r.project r.path) →
      p.file.id = fileId project p.file.path → p.chunks ≠ [] →
      Set.InjOn (Digest.Uuid.ofName idSpace)
        {key | (∃ r ∈ w.store.rows, key = chunkKey r.project r.path r.index) ∨
          ∃ chunk ∈ p.pieces c, key = chunkKey project p.file.path chunk.index} →
      o ∈ (w.generate c project [p] false).2.outcomes → o.error = none →
        p.file ∈ (w.generate c project [p] false).1.store.entries := by
  intro h
  have hrun : ((Run.start oneByOne (localOnly (.table {})) [dotted]).ends? oneByOne "p" 20).map (fun r =>
      (r.outcomes.map (·.error), r.floor.store.entries.map (·.path))) = some ([none], ["a.md"]) := by decide +kernel
  obtain ⟨r, hr, he⟩ := Option.map_eq_some_iff.1 hrun
  obtain ⟨herrors, hpaths⟩ := Prod.mk.inj he
  have hgenerate := generate_of_ends hr
  obtain ⟨o, ho, herror⟩ := List.map_eq_singleton_iff.1 herrors
  have hindex : (dotted.pieces oneByOne).map (·.index) = [0] := by decide +kernel
  have hkeys : Set.Subsingleton
      {key | (∃ r ∈ (localOnly (.table {})).store.rows, key = chunkKey r.project r.path r.index) ∨
        ∃ chunk ∈ dotted.pieces oneByOne, key = chunkKey "p" dotted.file.path chunk.index} := by
    have hkey : ∀ chunk ∈ dotted.pieces oneByOne, chunk.index = 0 := fun chunk hchunk =>
      List.mem_singleton.1 (hindex ▸ List.mem_map_of_mem hchunk)
    rintro _ (⟨q, hq, -⟩ | ⟨chunk, hchunk, rfl⟩) _ (⟨q', hq', -⟩ | ⟨chunk', hchunk', rfl⟩)
    · cases hq
    · cases hq
    · cases hq'
    · rw [hkey chunk hchunk, hkey chunk' hchunk']
  have hmem : o ∈ ((localOnly (.table {})).generate oneByOne "p" [dotted] false).2.outcomes := by
    rw [hgenerate]
    exact ho ▸ List.mem_cons_self
  have hheld := h oneByOne (localOnly (.table {})) "p" dotted o
    ⟨Nat.two_pow_pos 63, List.nodup_nil, List.nodup_nil⟩ nofun (by decide +kernel) (by decide) (hkeys.injOn _) hmem herror
  rw [hgenerate] at hheld
  have hpath := List.mem_map_of_mem (f := FileEntry.path) hheld
  rw [hpaths, List.mem_singleton] at hpath
  exact absurd hpath (by decide)

end Embedding

end CodeIndex
