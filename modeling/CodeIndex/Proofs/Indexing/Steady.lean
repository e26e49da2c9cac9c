import CodeIndex.Proofs.Embedding.Alone
import CodeIndex.Proofs.Indexing.Failure
import CodeIndex.Proofs.Indexing.Written
import CodeIndex.Retrieval.Hybrid

/-!
What holds of an index whatever was done to it. Trees, names and contents may be any, two names may even have the same
identifier: no operation leaves a call under way, the settings stay, and a table files each entry under the identifier
of its name. Such a store takes all records of any files, if it has no limit and its columns hold their numbers.
-/

namespace CodeIndex

open CodeIndex.Embedding Files Relation

variable {s s' : Store} {project : String} {file : FileEntry} {rs : List Record}

namespace Store

/-- Tables have entries under the identifiers of their names. A store in memory keeps names as they are given. -/
def Identified (s : Store) : Prop :=
  s.settings.bounded = true → ∀ g ∈ s.entries, g.id = Digest.Uuid.ofName idSpace s!"file:{g.project}:{g.path}"

theorem identified_empty (h : s.entries = []) : s.Identified := by
  intro _ g hg
  rw [h] at hg
  cases hg

theorem Identified.of_subset (h : s.Identified) (hs : s.Keeps s') (he : s'.entries ⊆ s.entries) : s'.Identified :=
  fun hb g hg => h (hs.settings ▸ hb) g (he hg)

theorem Identified.putFile (h : s.Identified) (hf : file.id = fileId file.project file.path)
    (hp : s.putFile file = .ok s') : s'.Identified := by
  cases s with
  | memory m =>
    cases hp
    exact fun hb => by cases hb
  | table t =>
    cases ht : t.putFile file with
    | error e =>
      simp only [Store.putFile, ht] at hp
      cases hp
    | ok t' =>
      simp only [Store.putFile, ht] at hp
      cases hp
      simp only [TableStore.putFile, bind, Except.bind] at ht
      have hold := h rfl
      repeat' split at ht
      all_goals cases ht
      · intro _ g hg
        obtain ⟨g', hg', rfl⟩ := List.mem_map.1 hg
        split
        · exact hold g' hg'
        · exact hold g' hg'
      · intro _ g hg
        rcases List.mem_append.1 hg with hg | hg
        · exact hold g hg
        · rw [List.mem_singleton.1 hg]
          exact hf

/-- Such a store takes any entry under the identifier of its name. -/
theorem Identified.takes (h : s.Identified) (hf : file.id = fileId file.project file.path)
    (hs : s.settings.Holds file.size) (hl : s.settings.Holds file.lineCount) : ∃ s', s.putFile file = .ok s' := by
  cases s with
  | memory m => exact ⟨_, rfl⟩
  | table t =>
    refine putFile_within ⟨hs, hl, fun g hg hproject hpath => ?_⟩
    rw [h rfl g hg, hf, hproject, hpath]
    rfl

theorem Identified.persist {result : Except StoreError Unit} (h : s.Identified)
    (hf : file.id = fileId file.project file.path) (hp : persist s file rs = (s', result)) : s'.Identified := by
  have hkeeps := (keeps_deleteRecords s file.id).trans (keeps_putAll (s.deleteRecords file.id).1 rs)
  have hentries := entries_putAll (s.deleteRecords file.id).1 rs
  rw [entries_deleteRecords] at hentries
  have hall := h.of_subset hkeeps (by rw [hentries]; exact List.Subset.refl _)
  unfold Embedding.persist at hp
  split at hp <;> rename_i he <;> rw [he] at hall
  · cases hp
    exact hall
  · split at hp
    · rename_i hput
      cases hp
      exact hall.putFile hf hput
    · cases hp
      exact hall

theorem Identified.deleteFiles (h : s.Identified) (project : String) (rels : List String) :
    (rels.foldl (fun s rel => s.deleteFile (fileId project rel)) s).Identified ∧
      s.Keeps (rels.foldl (fun s rel => s.deleteFile (fileId project rel)) s) := by
  induction rels generalizing s with
  | nil => exact ⟨h, .refl s⟩
  | cons rel rels ih =>
    have hkeeps := keeps_deleteFile s (fileId project rel)
    obtain ⟨hrest, hkept⟩ := ih (h.of_subset hkeeps (by rw [entries_deleteFile]; exact List.filter_subset_self _))
    exact ⟨hrest, hkeeps.trans hkept⟩

end Store

namespace Embedding

/-- Files under the identifiers of their names. -/
def Identified (files : List Prepared) : Prop := ∀ p ∈ files, p.file.id = fileId p.file.project p.file.path

variable {c : PipelineConfig} {σ : Store.Settings} {k : Contract c σ} {files : List Prepared} {p : Prepared}
  {log : List (Prepared × Outcome)}

theorem Traced.identified (h : Traced k project s log s') (hs : s.Sane) (hi : s.Identified)
    (hlog : Identified (log.map (·.1))) : s'.Identified := by
  induction h with
  | start => exact hi
  | widen h hw ih =>
    obtain ⟨-, he, hkeeps⟩ := Store.widenings_spec hw ((h.keeps hs).sane hs)
    exact (ih hlog).of_subset hkeeps (by rw [he]; exact List.Subset.refl _)
  | @ended log s₁ s₂ p o _ hend ih =>
    rw [List.map_append] at hlog
    have hbefore := ih fun q hq => hlog q (List.mem_append_left _ hq)
    obtain ⟨results, -, hf⟩ := hend
    obtain ⟨-, ⟨rfl, -⟩ | ⟨-, embedded, result, -, hpersist, -⟩⟩ := finish_cases hf
    · exact hbefore
    · exact hbefore.persist (hlog p (List.mem_append_right _ List.mem_cons_self)) hpersist

/-- The numbers of a file and of its chunks are ones that columns hold. -/
structure Prepared.Storable (c : PipelineConfig) (σ : Store.Settings) (p : Prepared) : Prop where
  size : σ.Holds p.file.size
  lineCount : σ.Holds p.file.lineCount
  chunks : ∀ chunk ∈ p.pieces c, σ.Holds chunk.index ∧ σ.Holds chunk.startLine ∧ σ.Holds chunk.endLine

/-- Such a store takes all records of files that it has the numbers for. -/
theorem welcome_identified (hk : k.Fits) (hs : s.Sane) (hσ : s.settings = σ) (hi : s.Identified)
    (hfiles : Identified files) (hstorable : ∀ p ∈ files, p.Storable c σ) : Welcome k project files s := by
  intro log s' ht hlog p hp embedded ha
  have hkeeps := ht.keeps hs
  have hsettings : s'.settings = σ := hkeeps.settings.trans hσ
  have hidentified := ht.identified hs hi fun q hq => by
    obtain ⟨x, hx, rfl⟩ := List.mem_map.1 hq
    exact hfiles x.1 (hlog x hx)
  have hfits : ∀ r ∈ (Job.ofPrepared c 0 p).records project embedded, s'.settings.Fits r := by
    intro r hr
    obtain ⟨chunk, hchunk, texts, e, he, vector, hv, rfl⟩ := mem_jobRecords ha hr
    obtain ⟨hindex, hstart, hend⟩ := (hstorable p hp).chunks chunk hchunk
    rw [hsettings]
    exact ⟨((hk texts e he).2 vector hv).2, hindex, hstart, hend⟩
  generalize hpersist : persist s' p.file ((Job.ofPrepared c 0 p).records project embedded) = e
  obtain ⟨s'', result⟩ := e
  have hok := persist_accepting hpersist hfits fun s₁ hσ₁ he₁ =>
    Store.Identified.takes (fun hb g hg => hidentified (hσ₁ ▸ hb) g (he₁ ▸ hg)) (hfiles p hp)
      ((hσ₁.trans hsettings) ▸ (hstorable p hp).size) ((hσ₁.trans hsettings) ▸ (hstorable p hp).lineCount)
  exact ⟨s'', by rw [hok]⟩

end Embedding

namespace Indexer

variable {c : IndexerConfig} {x x' : Indexer} {chain : List Signature} {σ : Store.Settings} {force : Bool}
  {files : List Discovered}

/-- An index with some providers, none of them called, over a store in order. -/
structure Steady (chain : List Signature) (σ : Store.Settings) (x : Indexer) : Prop where
  chain : x.world.providers.map Provider.signature = chain
  idle : x.world.health.Idle
  settings : x.world.store.settings = σ
  sane : x.world.store.Sane
  identified : x.world.store.Identified

/-- Another store in order is as good. -/
theorem Steady.with_store {s : Store} (h : x.Steady chain σ) (hk : x.world.store.Keeps s) (hi : s.Identified)
    (hw : x'.world = { x.world with store := s }) : x'.Steady chain σ := by
  refine ⟨?_, ?_, ?_, ?_, ?_⟩ <;> rw [hw]
  · exact h.chain
  · exact h.idle
  · exact hk.settings.trans h.settings
  · exact hk.sane h.sane
  · exact hi

theorem identified_pending (c : IndexerConfig) (x : Indexer) (project : String) (force : Bool)
    (files : List Discovered) : Identified (files.filterMap (x.pending? c project force)) := by
  intro p hp
  obtain ⟨f, -, hf⟩ := List.mem_filterMap.1 hp
  obtain ⟨language, -, rfl⟩ := pending?_spec hf
  rfl

theorem Steady.embed (h : x.Steady chain σ) (project : String) {files : List Prepared} (hf : Identified files)
    (s : Session) : (x.embed c project files s).1.Steady chain σ := by
  unfold Indexer.embed
  split
  · exact h
  · obtain ⟨log, ht, -, hm, hfloor, hkeeps, hidle⟩ :=
      generate_traced (.answering c.pipeline chain _) h.chain h.sane project files
    have hidentified := ht.identified h.sane h.identified fun p hp => by
      obtain ⟨y, hy, rfl⟩ := List.mem_map.1 hp
      exact hf y.1 (hm y hy)
    exact ⟨hfloor, (hidle h.idle).1, hkeeps.settings.trans h.settings, hkeeps.sane h.sane, hidentified⟩

theorem Steady.intake (h : x.Steady chain σ) (project : String) (force : Bool) (s : Session)
    (files : List Discovered) : (x.intake c project force s files).1.Steady chain σ := by
  obtain ⟨hworld, hpending⟩ := prepareAll_files c x project force s files
  unfold Indexer.intake
  generalize prepareAll c project force x s files = read at *
  obtain ⟨y, t, pending⟩ := read
  dsimp only at hworld hpending ⊢
  have hy : y.Steady chain σ := h.with_store (.refl _) h.identified hworld
  exact hy.embed project (hpending ▸ identified_pending c x project force files) _

theorem Steady.clear (h : x.Steady chain σ) (project : String) : (x.clear project).Steady chain σ := by
  have hkeeps := Store.keeps_clear x.world.store project
  refine h.with_store hkeeps (h.identified.of_subset hkeeps ?_) rfl
  rw [Store.entries_clear]
  exact List.filter_subset_self _

theorem Steady.migrated (h : x.Steady chain σ) (project : String) : (x.migrated project).Steady chain σ := by
  unfold Indexer.migrated
  split
  · exact h.clear project
  · exact h

theorem Steady.forgetAll (h : x.Steady chain σ) (project : String) (rels : List String) :
    (x.forgetAll project rels).Steady chain σ := by
  obtain ⟨hidentified, hkeeps⟩ := h.identified.deleteFiles project rels
  exact h.with_store hkeeps hidentified (world_forgetAll x project rels)

theorem Steady.indexProject (h : x.Steady chain σ) (tree : FileTree) (path : String) (force : Bool) :
    (x.indexProject c tree path force).1.Steady chain σ := by
  unfold Indexer.indexProject
  split
  · exact h
  · rename_i project _
    cases hd : c.discover tree project.root with
    | error e =>
      unfold indexRoot
      rw [hd]
      exact h
    | ok files =>
      rw [indexRoot_eq x force hd]
      dsimp only
      rw [removeOrphans_eq]
      exact ((h.migrated project.id).intake project.id force _ files).forgetAll project.id _

theorem Steady.reindexFile (h : x.Steady chain σ) (tree : FileTree) (project : Project) (file : String)
    (force : Bool) : (x.reindexFile c tree project file force).1.Steady chain σ := by
  unfold Indexer.reindexFile
  split
  · exact h.indexProject tree project.root force
  · dsimp only
    split
    · exact h
    · rename_i rel _
      split
      · rename_i content stat _
        rcases reindexContent_cases (c := c) x project ⟨file, rel, content, stat⟩ force with hx | hx <;> rw [hx]
        · exact h
        · exact h.intake project.id force (reading project.id) _
      · exact h
      · exact h.forgetAll project.id [rel]
      · exact h

/-- Every operation leaves an index as steady as it was. -/
theorem Steady.apply (h : x.Steady chain σ) (op : Operation) : (x.apply c op).Steady chain σ := by
  cases op with
  | index tree path force => exact h.indexProject tree path force
  | reindex tree project file force => exact h.reindexFile tree project file force
  | remove project file =>
    change (x.removeFile project file).1.Steady chain σ
    unfold removeFile
    split
    · exact h
    · rename_i rel _
      exact h.forgetAll project.id [rel]
  | wait ms => exact ⟨h.chain, h.idle, h.settings, h.sane, h.identified⟩

/-- A query looks at the index and leaves it as steady as it was. -/
theorem Steady.retrieve (h : x.Steady chain σ) (config : RetrievalConfig) (project query : String) (k : Nat) :
    { x with world := (retrieve c.pipeline config x.lexical x.world project query k).1 }.Steady chain σ := by
  have hworld : (CodeIndex.retrieve c.pipeline config x.lexical x.world project query k).1 =
      (x.world.embedQuery c.pipeline query (some project)).1 := by
    unfold CodeIndex.retrieve
    dsimp only
    split
    · rename_i he
      rw [he]
    · rename_i he
      rw [he]
    · rename_i he
      rw [he]
      split <;> rfl
  rw [hworld]
  have hasks := World.Asks.query c.pipeline x.world query (some project) h.idle
  obtain ⟨-, he, hkeeps⟩ := Store.widenings_spec hasks.store h.sane
  exact ⟨(map_signature hasks.providers).trans h.chain, hasks.idle, hkeeps.settings.trans h.settings,
    hkeeps.sane h.sane, h.identified.of_subset hkeeps (by rw [he]; exact List.Subset.refl _)⟩

/-- All states of an index, over the lives of many processes. Each finds the store that the one before left, and may
have another configuration and other providers. -/
inductive Reachable (s : Store) : IndexerConfig → Indexer → Prop where
  | begin (p : Process) : 1 ≤ p.health.defaultConcurrency → Reachable s p.config (p.begin s)
  | apply {c : IndexerConfig} {x : Indexer} (op : Operation) : Reachable s c x → Reachable s c (x.apply c op)
  | retrieve {c : IndexerConfig} {x : Indexer} (config : RetrievalConfig) (project query : String) (k : Nat) :
      Reachable s c x →
        Reachable s c { x with world := (retrieve c.pipeline config x.lexical x.world project query k).1 }
  | restart {c : IndexerConfig} {x : Indexer} (p : Process) : Reachable s c x → 1 ≤ p.health.defaultConcurrency →
      Reachable s p.config (p.begin x.world.store)

theorem Steady.begin {s : Store} (p : Process) (hp : 1 ≤ p.health.defaultConcurrency) (hs : s.Sane)
    (hi : s.Identified) : (p.begin s).Steady (p.providers.map Provider.signature) s.settings := by
  have hworld : (p.begin s).world =
      { now := p.now, providers := p.providers, health := { config := p.health }, store := s } :=
    (warmed_spec _ p.warmed).1
  refine ⟨?_, ?_, ?_, ?_, ?_⟩ <;> rw [hworld]
  · exact Health.Registry.idle_empty hp
  · exact hs
  · exact hi

theorem Reachable.steady {s : Store} (h : Reachable s c x) (hs : s.Sane) (hi : s.Identified) :
    x.Steady (x.world.providers.map Provider.signature) s.settings := by
  have hchain : ∃ chain, x.Steady chain s.settings := by
    induction h with
    | begin p hp => exact ⟨_, .begin p hp hs hi⟩
    | apply op _ ih =>
      obtain ⟨chain, hx⟩ := ih
      exact ⟨chain, hx.apply op⟩
    | retrieve config project query k _ ih =>
      obtain ⟨chain, hx⟩ := ih
      exact ⟨chain, hx.retrieve config project query k⟩
    | restart p _ hp ih =>
      obtain ⟨chain, hx⟩ := ih
      have hbegun := Steady.begin p hp hx.sane hx.identified
      rw [hx.settings] at hbegun
      exact ⟨_, hbegun⟩
  obtain ⟨chain, hx⟩ := hchain
  rw [hx.chain]
  exact hx

end Indexer

end CodeIndex
