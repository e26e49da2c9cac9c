import CodeIndex.Proofs.Indexing.Rerun
import CodeIndex.Proofs.Store.Answers

/-!
What is left of a file that could not be embedded. Its entry stays, and so does all that belongs to other files. Its
records stay if a batch failed, for then nothing is written, and they stay if the store lets in vectors of every
provider's own length. They are gone if the store refuses a new record: the old ones were removed before.
-/

namespace CodeIndex

open CodeIndex.Embedding

variable {s s' : Store} {id project : String} {file : FileEntry} {rs : List Record}

theorem others_putAll (hrs : ∀ r ∈ rs, r.fileId = id) (hid : ∀ q ∈ s.rows, q.fileId ≠ id → ∀ r ∈ rs, q.id ≠ r.id) :
    (putAll s rs).1.rows.filter (·.fileId != id) = s.rows.filter (·.fileId != id) := by
  induction rs generalizing s with
  | nil => rfl
  | cons r rs ih =>
    unfold putAll
    split
    · rename_i s₁ hput
      obtain rfl : r.fileId = id := hrs r List.mem_cons_self
      have hothers := Store.others_put hput fun q hq hne => hid q hq hne r List.mem_cons_self
      rw [ih (fun q hq => hrs q (List.mem_cons_of_mem _ hq)), hothers]
      intro q hq hne x hx
      have hmem : q ∈ s₁.rows.filter (·.fileId != r.fileId) := List.mem_filter.2 ⟨hq, bne_iff_ne.2 hne⟩
      rw [hothers] at hmem
      exact hid q (List.mem_of_mem_filter hmem) hne x (List.mem_cons_of_mem _ hx)
    · rfl

/-- The records of other files stay, whether or not the store takes the new ones. -/
theorem others_persist {result : Except StoreError Unit} (h : persist s file rs = (s', result))
    (hrs : ∀ r ∈ rs, r.fileId = file.id) (hid : ∀ q ∈ s.rows, q.fileId ≠ file.id → ∀ r ∈ rs, q.id ≠ r.id) :
    s'.rows.filter (·.fileId != file.id) = s.rows.filter (·.fileId != file.id) := by
  have hdelete : (s.deleteRecords file.id).1.rows.filter (·.fileId != file.id) =
      s.rows.filter (·.fileId != file.id) := by
    rw [Store.rows_deleteRecords, List.filter_filter]
    simp
  have hall : (putAll (s.deleteRecords file.id).1 rs).1.rows.filter (·.fileId != file.id) =
      s.rows.filter (·.fileId != file.id) := by
    rw [others_putAll hrs, hdelete]
    intro q hq hne
    rw [Store.rows_deleteRecords] at hq
    exact hid q (List.mem_of_mem_filter hq) hne
  unfold persist at h
  split at h <;> rename_i he <;> rw [he] at hall
  · cases h
    exact hall
  · split at h
    · rename_i hput
      cases h
      rw [Store.rows_putFile hput]
      exact hall
    · cases h
      exact hall

theorem putAll_fitting (h : ∀ r ∈ rs, s.settings.Fits r) : ∃ s', putAll s rs = (s', .ok ()) := by
  induction rs generalizing s with
  | nil => exact ⟨s, rfl⟩
  | cons r rs ih =>
    have hr := h r List.mem_cons_self
    obtain ⟨s₁, hput⟩ := Store.put_within hr
    rw [putAll, hput]
    apply ih
    intro q hq
    rw [(Store.keeps_put hput).settings]
    exact h q (List.mem_cons_of_mem _ hq)

/-- A store takes records that it can hold, and then the entry, if nothing but the records keeps it from that. -/
theorem persist_accepting {result : Except StoreError Unit} (hp : persist s file rs = (s', result))
    (h : ∀ r ∈ rs, s.settings.Fits r) (hf : ∀ s₁ : Store, s₁.settings = s.settings → s₁.entries = s.entries →
      ∃ s₂, s₁.putFile file = .ok s₂) : result = .ok () := by
  have hkeeps := Store.keeps_deleteRecords s file.id
  obtain ⟨s₁, hall⟩ : ∃ s₁, putAll (s.deleteRecords file.id).1 rs = (s₁, .ok ()) := by
    apply putAll_fitting
    rw [hkeeps.settings]
    exact h
  have hentries := entries_putAll (s.deleteRecords file.id).1 rs
  have hkeeps₁ := keeps_putAll (s.deleteRecords file.id).1 rs
  rw [hall, Store.entries_deleteRecords] at hentries
  rw [hall] at hkeeps₁
  obtain ⟨s₂, hput⟩ := hf s₁ (hkeeps₁.settings.trans hkeeps.settings) hentries
  unfold persist at hp
  rw [hall] at hp
  dsimp only at hp
  rw [hput] at hp
  cases hp
  rfl

theorem persist_fitting {result : Except StoreError Unit} (hp : persist s file rs = (s', result))
    (h : ∀ r ∈ rs, s.settings.Fits r) (hf : s.Takes file) : result = .ok () :=
  persist_accepting hp h fun _ hσ he => Store.putFile_within ⟨hσ ▸ hf.size, hσ ▸ hf.lineCount, he ▸ hf.name⟩

namespace Embedding

variable {c : PipelineConfig} {w : World} {p : Prepared} {o : Outcome}

/-- The store can hold the file: vectors of every provider's own length, the numbers of all chunks, and the entry. -/
structure World.Welcomes (w : World) (c : PipelineConfig) (p : Prepared) : Prop where
  providers : ∀ q ∈ w.providers, w.store.settings.Admits q.dimensions
  chunks : ∀ chunk ∈ p.pieces c, w.store.settings.Holds chunk.index ∧ w.store.settings.Holds chunk.startLine ∧
    w.store.settings.Holds chunk.endLine
  file : w.store.Takes p.file

/-- Records in the vectors of answers that fit are ones that a welcoming store can hold. -/
theorem World.Welcomes.fits (h : w.Welcomes c p) {embedded : List Embedded}
    (ha : (Contract.answering c (w.providers.map Provider.signature) w.store.settings).Answers p embedded) :
    ∀ r ∈ (Job.ofPrepared c 0 p).records project embedded, w.store.settings.Fits r := by
  intro r hr
  obtain ⟨chunk, hchunk, texts, e, he, vector, hv, rfl⟩ := mem_jobRecords ha hr
  have hanswered := he e rfl
  obtain ⟨hindex, hstart, hend⟩ := h.chunks chunk hchunk
  refine ⟨?_, hindex, hstart, hend⟩
  change w.store.settings.Admits vector.size
  rw [hanswered.size vector hv]
  obtain ⟨signature, hs, -, hd | hd⟩ := hanswered.source
  · obtain ⟨q, hq, rfl⟩ := List.mem_map.1 hs
    rw [hd]
    exact h.providers q hq
  · exact hd

/-- A file that failed keeps its entry, and other files all they have. Its records are as before if a batch failed, or
if the store can hold the file. -/
theorem failed_keeps (hs : w.store.Sane) (ho : o ∈ (w.generate c project [p] false).2.outcomes) (he : o.error ≠ none)
    (hid : ∀ q ∈ w.store.rows, q.fileId ≠ p.file.id → ∀ chunk ∈ p.pieces c,
      q.id ≠ chunkId project p.file.path chunk.index) :
    let s' := (w.generate c project [p] false).1.store
    s'.entries = w.store.entries ∧
      s'.rows.filter (·.fileId != p.file.id) = w.store.rows.filter (·.fileId != p.file.id) ∧
      (o.failedBatches ≠ 0 ∨ w.Welcomes c p → s'.rows = w.store.rows) := by
  intro s'
  obtain ⟨log, ht, hlog, hfiles, -⟩ := generate_traced
    (.answering c (w.providers.map Provider.signature) w.store.settings) rfl hs project [p]
  have hlen := length_outcomes_le (c := c) hs project [p]
  -- the file ended once, so this is how it ended
  obtain ⟨x, hx, rfl⟩ : ∃ x ∈ log, x.2 = o := by
    rw [← hlog] at ho
    exact List.mem_map.1 ho
  obtain rfl : log = [x] := by
    rw [← hlog, List.length_map] at hlen
    obtain ⟨y, rfl⟩ := List.length_eq_one_iff.1 (Nat.le_antisymm hlen (List.length_pos_of_mem hx))
    rw [List.mem_singleton.1 hx]
  obtain ⟨q, o⟩ := x
  obtain rfl : q = p := List.mem_singleton.1 (hfiles _ List.mem_cons_self)
  obtain ⟨s₁, s₂, ⟨results, ha, hend⟩, hrows₁, hentries₁, hkeeps, hrows, hentries⟩ := ht.single hs
  change s'.rows = s₂.rows at hrows
  change s'.entries = s₂.entries at hentries
  rw [hrows, hentries, ← hrows₁, ← hentries₁]
  rw [← hrows₁] at hid
  obtain ⟨-, ⟨rfl, -, -⟩ | ⟨hzero, embedded, r, rfl, hpersist, hr⟩⟩ := finish_cases hend
  · exact ⟨rfl, rfl, fun _ => rfl⟩
  · have hanswers := List.forall₂_map_right_iff.1 ha
    change persist s₁ q.file ((Job.ofPrepared c 0 q).records project embedded) = (s₂, r) at hpersist
    cases r with
    | ok u => exact absurd (hr.2 rfl) he
    | error e =>
      refine ⟨entries_persist_error hpersist, others_persist hpersist ?_ ?_, ?_⟩
      · intro r hr
        obtain ⟨chunk, -, texts, e, -, vector, -, rfl⟩ := mem_jobRecords hanswers hr
        rfl
      · intro x hx hne r hr
        obtain ⟨chunk, hchunk, texts, e, -, vector, -, rfl⟩ := mem_jobRecords hanswers hr
        exact hid x hx hne chunk hchunk
      · rintro (hfailed | hwelcome)
        · exact absurd hzero hfailed
        · -- such a store would have taken the records
          have hok := persist_fitting hpersist (fun r hr => hkeeps.settings ▸ hwelcome.fits hanswers r hr)
            ⟨hkeeps.settings ▸ hwelcome.file.size, hkeeps.settings ▸ hwelcome.file.lineCount,
              hentries₁ ▸ hwelcome.file.name⟩
          cases hok

theorem generate_of_ends {files : List Prepared} {n : Nat} {r : Run}
    (h : (Run.start c w files).ends? c project n = some r) :
    w.generate c project files false = (r.floor.toWorld, { outcomes := r.outcomes }) := by
  unfold World.generate
  rw [if_neg Bool.false_ne_true]
  dsimp only
  rw [complete_of_ends h]

/-- A file of one line. -/
def oneLine (content : String) : Prepared where
  file :=
    { id := fileId "p" "a.md", project := "p", path := "a.md", hash := content, language := "markdown",
      size := content.utf8ByteSize, lineCount := 1, modifiedMs := 0 }
  chunks := [⟨content, 1, 1, estimateTokens content, none, none, 0⟩]

/-- Nothing is stored yet. The first call is answered by four components, all others by the same reply. -/
def wavering (settled : Reply) : World where
  providers := [{ name := "m1", model := "mock-embed", dimensions := 8, script := [.hashed 4], settled }]
  health := { config := ⟨3, 3600000, 3, 60000, 8⟩ }
  store := .memory { limit := some 4 }

/-- Two files of one line under the same name, one after the other. -/
def successive? (w : World) : Option (Run × Run) :=
  ((Run.start Config.defaultEmbedding w [oneLine "one"]).ends? Config.defaultEmbedding "p" 10).bind fun r =>
    ((Run.start Config.defaultEmbedding r.floor.toWorld [oneLine "two"]).ends? Config.defaultEmbedding "p" 10).map (r, ·)

theorem generate_of_successive {r r' : Run} (h : successive? w = some (r, r')) :
    w.generate Config.defaultEmbedding "p" [oneLine "one"] false = (r.floor.toWorld, { outcomes := r.outcomes }) ∧
      r.floor.toWorld.generate Config.defaultEmbedding "p" [oneLine "two"] false =
        (r'.floor.toWorld, { outcomes := r'.outcomes }) := by
  obtain ⟨q, hq, h⟩ := Option.bind_eq_some_iff.1 h
  obtain ⟨q', hq', he⟩ := Option.map_eq_some_iff.1 h
  cases he
  exact ⟨generate_of_ends hq, generate_of_ends hq'⟩

/-- What became of the second file if its batch failed. -/
def notEmbedded : Outcome := ⟨"a.md", 1, 0, 1, none, some (.embed .noProvider)⟩

/-- A batch of the second file fails, and the records of the first one stay. -/
theorem failed_keeps_oneLine :
    ∃ w₁ w₂ p₁ p₂,
      (wavering (.fails (.permanent "m1" "down"))).generate Config.defaultEmbedding "p" [oneLine "one"] false = (w₁, p₁) ∧
      w₁.generate Config.defaultEmbedding "p" [oneLine "two"] false = (w₂, p₂) ∧
      notEmbedded ∈ p₂.outcomes ∧ notEmbedded.error ≠ none ∧ w₁.store.rows ≠ [] ∧ w₂.store.rows = w₁.store.rows ∧
      w₂.store.entries = w₁.store.entries := by
  have hruns : ((successive? (wavering (.fails (.permanent "m1" "down")))).map fun x =>
      (x.1.floor.store.rows.map (·.fileId), x.2.outcomes)) = some ([fileId "p" "a.md"], [notEmbedded]) := by
    decide +kernel
  obtain ⟨⟨r, r'⟩, hruns, he⟩ := Option.map_eq_some_iff.1 hruns
  obtain ⟨hrows, houtcomes⟩ := Prod.mk.inj he
  obtain ⟨hfirst, hsecond⟩ := generate_of_successive hruns
  have hsane : r.floor.store.Sane := by
    obtain ⟨-, -, -, -, -, hkeeps, -⟩ := generate_traced
      (w := wavering (.fails (.permanent "m1" "down")))
      (.answering Config.defaultEmbedding _ _) rfl trivial "p" [oneLine "one"]
    rw [hfirst] at hkeeps
    exact hkeeps.sane trivial
  have hmem : notEmbedded ∈ r'.outcomes := by
    rw [houtcomes]
    exact List.mem_cons_self
  have hsame : ∀ q ∈ r.floor.store.rows, q.fileId = fileId "p" "a.md" := by
    intro q hq
    have hid := List.mem_map_of_mem (f := Record.fileId) hq
    rw [hrows] at hid
    exact List.mem_singleton.1 hid
  have herror : notEmbedded.error ≠ none := nofun
  have hkept := failed_keeps (w := r.floor.toWorld) (c := Config.defaultEmbedding) (p := oneLine "two") hsane
    (by rw [hsecond]; exact hmem) herror fun q hq hne => absurd (hsame q hq) hne
  rw [hsecond] at hkept
  refine ⟨_, _, _, _, hfirst, hsecond, hmem, herror, ?_, hkept.2.2 (.inl nofun), hkept.1⟩
  intro hnil
  change r.floor.store.rows = [] at hnil
  rw [hnil] at hrows
  cases hrows

/-- The first file was answered by fewer components than the provider should have. The second one is answered by all
of them, which is more than the store lets in: the old record is gone, the entry still tells of it, and there is no
new one. -/
theorem refused_loses_records :
    ∃ w₁ w₂ p₁ p₂,
      (wavering (.hashed 8)).generate Config.defaultEmbedding "p" [oneLine "one"] false = (w₁, p₁) ∧
      w₁.generate Config.defaultEmbedding "p" [oneLine "two"] false = (w₂, p₂) ∧
      p₁.outcomes.map (·.error) = [none] ∧
      p₂.outcomes.map (·.error) = [some (.store (.dimensionUnsupported 8 4))] ∧
      w₁.store.rows.map (·.content) = ["one"] ∧ w₂.store.rows = [] ∧ w₁.store.entries = [(oneLine "one").file] ∧
      w₂.store.entries = w₁.store.entries := by
  have hruns : ((successive? (wavering (.hashed 8))).map fun x =>
      ([x.1, x.2].map fun r => r.outcomes.map (·.error), [x.1, x.2].map fun r => r.floor.store.rows.map (·.content),
        [x.1, x.2].map fun r => r.floor.store.entries)) =
      some ([[none], [some (.store (.dimensionUnsupported 8 4))]], [["one"], []],
        [[(oneLine "one").file], [(oneLine "one").file]]) := by decide +kernel
  obtain ⟨⟨r, r'⟩, hruns, he⟩ := Option.map_eq_some_iff.1 hruns
  obtain ⟨hfirst, hsecond⟩ := generate_of_successive hruns
  simp only [List.map_cons, List.map_nil, Prod.mk.injEq, List.cons.injEq, and_true, List.map_eq_nil_iff] at he
  obtain ⟨⟨herror, herror'⟩, ⟨hrows, hrows'⟩, hentries, hentries'⟩ := he
  exact ⟨_, _, _, _, hfirst, hsecond, herror, herror', hrows, hrows', hentries, hentries'.trans hentries.symm⟩

end Embedding

end CodeIndex
