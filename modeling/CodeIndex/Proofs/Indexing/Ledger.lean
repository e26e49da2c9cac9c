import CodeIndex.Proofs.Indexing.Reindex
import CodeIndex.Proofs.Indexing.Steady

/-!
The accounts of a full run. Each file that was found is processed, skipped, or told of in an error, and just one of
these; chunks and embeddings are as many as the records that were written. A run that fails changes nothing, and a
session that has ended stays as it is.
-/

namespace CodeIndex

open CodeIndex.Embedding Files

namespace Session

variable {s : Session}

/-- What can befall a session. -/
inductive Event where
  | transition (next : SessionStatus)
  | recordError (path : Option String) (message : String)
  | complete
  | fail (message : String)

def handle (s : Session) : Event → Session
  | .transition next => s.transition next
  | .recordError path message => s.recordError path message
  | .complete => s.complete
  | .fail message => s.fail message

theorem handle_ended (h : s.status.isTerminal = true) (e : Event) : s.handle e = s := by
  cases e <;> exact if_pos h

/-- Nothing changes a session that has ended. -/
theorem handleAll_ended (h : s.status.isTerminal = true) (events : List Event) : events.foldl handle s = s := by
  induction events with
  | nil => rfl
  | cons e events ih => rw [List.foldl_cons, handle_ended h, ih]

/-- How many files a session tells of. -/
def told (s : Session) : Nat := s.filesProcessed + s.filesSkipped + (s.errors.filter (·.path.isSome)).length

/-- A session that ended well and tells of all files that were found, of just those that were written as processed, and
of just the records that were written. -/
structure Accounts (s : Session) (ws : List (Prepared × List Record)) : Prop where
  status : s.status = .completed
  files : s.filesFound = s.filesProcessed + s.filesSkipped + (s.errors.filter (·.path.isSome)).length
  processed : s.filesProcessed = ws.length
  chunks : s.chunks = (written ws).length
  embeddings : s.embeddings = (written ws).length

end Session

/-- A session that failed and tells for what. -/
structure SessionFailure.Tells (e : SessionFailure) : Prop where
  status : e.session.status = .failed
  error : ⟨none, e.cause.message⟩ ∈ e.session.errors

namespace Indexer

variable {c : IndexerConfig} {x x' : Indexer} {chain : List Signature} {σ : Store.Settings} {force : Bool}
  {project : String} {files : List Discovered} {s : Session} {e : SessionFailure}

theorem book_told (o : Outcome) (hs : s.status.isTerminal = false) :
    (book s o).status = s.status ∧ (book s o).told = s.told + 1 ∧
      (book s o).filesProcessed = s.filesProcessed + credit (fun _ => 1) [o] ∧
      (book s o).chunks = s.chunks + credit (·.chunks) [o] ∧
      (book s o).embeddings = s.embeddings + credit (·.embedded) [o] := by
  unfold book
  cases he : o.error with
  | none =>
    rw [credit_good _ he, credit_good _ he, credit_good _ he]
    refine ⟨rfl, ?_, rfl, rfl, rfl⟩
    simp only [Session.told]
    omega
  | some e =>
    have hne : o.error ≠ none := by simp [he]
    rw [credit_error _ hne, credit_error _ hne, credit_error _ hne]
    simp only [Session.recordError, hs, Bool.false_eq_true, if_false, Session.told, List.filter_append,
      List.length_append]
    exact ⟨trivial, rfl, rfl, rfl, rfl⟩

/-- Each outcome tells of one file, and those without an error of its chunks. -/
theorem foldl_book_told (outcomes : List Outcome) (hs : s.status.isTerminal = false) :
    (outcomes.foldl book s).told = s.told + outcomes.length ∧
      (outcomes.foldl book s).filesProcessed = s.filesProcessed + credit (fun _ => 1) outcomes ∧
      (outcomes.foldl book s).chunks = s.chunks + credit (·.chunks) outcomes ∧
      (outcomes.foldl book s).embeddings = s.embeddings + credit (·.embedded) outcomes := by
  induction outcomes generalizing s with
  | nil => exact ⟨rfl, rfl, rfl, rfl⟩
  | cons o outcomes ih =>
    obtain ⟨hstatus, htold, hprocessed, hchunks, hembeddings⟩ := book_told o hs
    obtain ⟨htold', hprocessed', hchunks', hembeddings'⟩ := ih (s := book s o) (hstatus ▸ hs)
    have hcredit : ∀ count : Outcome → Nat, credit count (o :: outcomes) = credit count [o] + credit count outcomes :=
      fun count => credit_append count [o] outcomes
    rw [List.foldl_cons, htold', htold, hprocessed', hprocessed, hchunks', hchunks, hembeddings', hembeddings, hcredit,
      hcredit, hcredit, List.length_cons]
    omega

/-- Reading files tells of all of them but those that are to be embedded. -/
theorem prepareAll_told (c : IndexerConfig) (x : Indexer) (project : String) (force : Bool) (files : List Discovered)
    (hs : s.status.isTerminal = false) :
    let t := (prepareAll c project force x s files).2.1
    t.told + (files.filterMap (x.pending? c project force)).length = s.told + files.length ∧
      t.status = s.status ∧ t.filesFound = s.filesFound ∧ t.migrated = s.migrated ∧
      t.filesProcessed = s.filesProcessed ∧ t.chunks = s.chunks ∧ t.embeddings = s.embeddings := by
  obtain ⟨errors, skipped, hremarks, hsession⟩ := prepareAll_session c x project force files hs
  have hall : errors.filter (·.path.isSome) = errors := List.filter_eq_self.2 hremarks.paths
  have hcount := hremarks.count
  rw [hsession]
  refine ⟨?_, rfl, rfl, rfl, rfl, rfl, rfl⟩
  simp only [Session.told, List.filter_append, List.length_append, hall]
  omega

theorem storable_pending (hc : c.ParserFits) (hb : σ.bounded = true → ∀ f ∈ files, f.content.size < 2 ^ 63) :
    ∀ p ∈ files.filterMap (x.pending? c project force), p.Storable c.pipeline σ := by
  intro p hp
  obtain ⟨f, hf, hp⟩ := List.mem_filterMap.1 hp
  obtain ⟨language, -, rfl⟩ := pending?_spec hp
  have hlines := Text.length_lines_decodeLossy_le f.content
  refine ⟨fun hσ => hb hσ f hf, fun hσ => Nat.lt_of_le_of_lt hlines (hb hσ f hf), fun chunk hchunk => ?_⟩
  obtain ⟨hindex, hstart, hend⟩ := pieces_prepared hc project f language chunk hchunk
  have hsmall : ∀ n, n ≤ max 1 f.content.size → σ.Holds n := fun n hn hσ => by
    have := hb hσ f hf
    omega
  exact ⟨hsmall _ hindex.le, hsmall _ hstart, hsmall _ hend⟩

/-- What a session tells once so many of the files that were found were dealt with. -/
structure Booking (s t : Session) (files : Nat) : Prop where
  status : t.status.isTerminal = false
  found : t.filesFound = s.filesFound
  migrated : t.migrated = s.migrated
  told : t.told = s.told + files

/-- Files, chunks and embeddings that are counted as these records were written. -/
structure Counted (s t : Session) (ws : List (Prepared × List Record)) : Prop where
  processed : t.filesProcessed = s.filesProcessed + ws.length
  chunks : t.chunks = s.chunks + (written ws).length
  embeddings : t.embeddings = s.embeddings + (written ws).length

/-- Such an index takes any files whose numbers its columns hold. -/
theorem Steady.welcome (h : x.Steady chain σ) (hk : (Contract.answering c.pipeline chain σ).Fits) (hc : c.ParserFits)
    (hb : σ.bounded = true → ∀ f ∈ files, f.content.size < 2 ^ 63) (project : String) (force : Bool) :
    Welcome (.answering c.pipeline chain σ) project (files.filterMap (x.pending? c project force)) x.world.store :=
  welcome_identified hk h.sane h.settings h.identified (identified_pending c x project force files)
    (storable_pending hc hb)

/-- What embedding files writes, and what the session tells of it. -/
theorem Steady.embed_spec (h : x.Steady chain σ) (hs : s.status.isTerminal = false) (project : String)
    (files : List Prepared) :
    let y := x.embed c project files s
    Booking s y.2 files.length ∧
      ∃ ws, Wrote (.answering c.pipeline chain σ) project files x.world.store ws y.1.world.store ∧
        ((Contract.answering c.pipeline chain σ).Fits →
          Welcome (.answering c.pipeline chain σ) project files x.world.store → Counted s y.2 ws) := by
  obtain ⟨hchain, hidle, rfl, hsane, -⟩ := h
  unfold Indexer.embed
  dsimp only
  split
  · rename_i hnil
    rw [List.isEmpty_iff.1 hnil]
    exact ⟨⟨hs, rfl, rfl, rfl⟩, [], .nil _ project [] rfl, fun _ _ => ⟨rfl, rfl, rfl⟩⟩
  · obtain ⟨log, -, ho, -, -, -, hall⟩ := generate_traced (.answering c.pipeline chain _) hchain hsane project files
    obtain ⟨ws, hwrote, hbooked⟩ := generate_wrote (.answering c.pipeline chain _) hchain hsane hidle project files
    have hlength : (x.world.generate c.pipeline project files false).2.outcomes.length = files.length := by
      rw [← ho, List.length_map, ← (hall hidle).2.length_eq, List.length_map]
    have hopened : s.transition .embedding = { s with status := .embedding } := by
      rw [Session.transition, hs]
      rfl
    rw [hopened]
    obtain ⟨hstatus, hfound, -, hmigrated, -⟩ :=
      foldl_book (s := { s with status := .embedding }) (x.world.generate c.pipeline project files false).2.outcomes rfl
    obtain ⟨htold, hcredited⟩ := foldl_book_told (s := { s with status := .embedding })
      (x.world.generate c.pipeline project files false).2.outcomes rfl
    rw [hlength] at htold
    refine ⟨⟨hstatus ▸ rfl, hfound, hmigrated, htold⟩, ws, hwrote, fun hk hw => ?_⟩
    obtain ⟨hprocessed, hchunks, hembeddings⟩ := hcredited
    have h := hbooked hk hw
    rw [h.files] at hprocessed
    rw [h.chunks] at hchunks
    rw [h.embedded] at hembeddings
    exact ⟨hprocessed, hchunks, hembeddings⟩

/-- What taking in files writes, and what the session tells of it. -/
theorem Steady.intake_spec (h : x.Steady chain σ) (hs : s.status.isTerminal = false) (project : String) (force : Bool)
    (files : List Discovered) :
    let y := x.intake c project force s files
    let pending := files.filterMap (x.pending? c project force)
    Booking s y.2 files.length ∧
      ∃ ws, Wrote (.answering c.pipeline chain σ) project pending x.world.store ws y.1.world.store ∧
        ((Contract.answering c.pipeline chain σ).Fits →
          Welcome (.answering c.pipeline chain σ) project pending x.world.store → Counted s y.2 ws) := by
  obtain ⟨hworld, hpending⟩ := prepareAll_files c x project force s files
  obtain ⟨htold, hstatus, hfound, hmigrated, hprocessed, hchunks, hembeddings⟩ :=
    prepareAll_told c x project force files hs
  unfold Indexer.intake
  generalize prepareAll c project force x s files = read at *
  obtain ⟨y, t, pending⟩ := read
  dsimp only at *
  have hy : y.Steady chain σ := h.with_store (.refl _) h.identified hworld
  rw [hpending, ← hworld]
  obtain ⟨hbooking, ws, hwrote, hcounted⟩ := hy.embed_spec
    (s := { t with symbols := t.symbols + total (pending.map Pending.symbols) }) (hstatus ▸ hs) project
    (files.filterMap (x.pending? c project force))
  refine ⟨⟨hbooking.status, hbooking.found.trans hfound, hbooking.migrated.trans hmigrated, hbooking.told.trans htold⟩,
    ws, hwrote, fun hk hw => ?_⟩
  have hnew := hcounted hk hw
  exact ⟨hnew.processed.trans (congrArg (· + _) hprocessed), hnew.chunks.trans (congrArg (· + _) hchunks),
    hnew.embeddings.trans (congrArg (· + _) hembeddings)⟩

theorem rows_cleared (x : Indexer) (project : String) :
    (x.clear project).world.store.rows = x.world.store.rows.filter (·.project != project) :=
  Store.rows_clear x.world.store project

theorem rows_migrated (x : Indexer) (project : String) :
    ∀ q ∈ (x.migrated project).world.store.rows, q ∈ x.world.store.rows := by
  unfold Indexer.migrated
  split
  · rw [rows_cleared]
    exact fun _ hq => List.mem_of_mem_filter hq
  · exact fun _ hq => hq

/-- What a full run makes of the records in the store. Those of before, without the project's if the model has changed,
are rewritten for files that were found, for each of them at most once, and then those of paths that are gone are
dropped. So what was written is there afterwards, unless something else has its identifier. -/
structure Rewritten (c : IndexerConfig) (chain : List Signature) (project : String) (files : List Discovered)
    (force : Bool) (x : Indexer) (ws : List (Prepared × List Record)) (gone : List String) (x' : Indexer) : Prop where
  once : (ws.map (·.1)).Subperm (files.filterMap ((x.migrated project).pending? c project force))
  made : ∀ w ∈ ws, ∃ embedded, (Contract.answering c.pipeline chain x.world.store.settings).Answers w.1 embedded ∧
    w.2 <+: (Job.ofPrepared c.pipeline 0 w.1).records project embedded
  dropped : ∀ path ∈ gone, path ∉ files.map (·.rel)
  rows : ∀ q, q ∈ x'.world.store.rows ↔
    q ∈ rewrittenAll (x.migrated project).world.store.rows ws ∧ ∀ path ∈ gone, q.fileId ≠ fileId project path
  lasting : ((written ws).map (·.id)).Nodup → (ws.map (·.1.file.id)).Nodup →
    (∀ w ∈ ws, ∀ path ∈ gone, w.1.file.id ≠ fileId project path) → ∀ q ∈ written ws, q ∈ x'.world.store.rows

/-- Every record that was written is that of a chunk, in a vector of an answer. -/
theorem Rewritten.mem_written {ws : List (Prepared × List Record)} {gone : List String}
    (h : x.Rewritten c chain project files force ws gone x') {r : Record} (hr : r ∈ written ws) :
    ∃ w ∈ ws, ∃ embedded, (Contract.answering c.pipeline chain x.world.store.settings).Answers w.1 embedded ∧
      r ∈ (Job.ofPrepared c.pipeline 0 w.1).records project embedded := by
  obtain ⟨w, hw, hr⟩ := List.mem_flatMap.1 hr
  obtain ⟨embedded, ha, htaken⟩ := h.made w hw
  exact ⟨w, hw, embedded, ha, htaken.subset hr⟩

/-- What the store holds after a run it held when the run began, or the run wrote it. -/
theorem Rewritten.source {ws : List (Prepared × List Record)} {gone : List String}
    (h : x.Rewritten c chain project files force ws gone x') {q : Record} (hq : q ∈ x'.world.store.rows) :
    q ∈ (x.migrated project).world.store.rows ∨ q ∈ written ws := of_mem_rewrittenAll ((h.rows q).1 hq).1

/-- Files that are written, and paths that are dropped then. -/
theorem rewritten_of_wrote {y : Indexer} {ws : List (Prepared × List Record)}
    (h : Wrote (.answering c.pipeline chain x.world.store.settings) project
      (files.filterMap ((x.migrated project).pending? c project force)) (x.migrated project).world.store ws
      y.world.store) :
    x.Rewritten c chain project files force ws ((y.paths project).filter fun rel => !(files.map (·.rel)).contains rel)
      (y.removeOrphans project (files.map (·.rel))).1 := by
  have hrows : ∀ q, q ∈ (y.removeOrphans project (files.map (·.rel))).1.world.store.rows ↔
      q ∈ rewrittenAll (x.migrated project).world.store.rows ws ∧
        ∀ path ∈ (y.paths project).filter (fun rel => !(files.map (·.rel)).contains rel),
          q.fileId ≠ fileId project path := by
    intro q
    rw [removeOrphans_eq, world_forgetAll]
    dsimp only
    rw [Store.rows_deleteFiles, List.mem_filter, h.rows]
    refine and_congr_right fun _ => ?_
    simp only [Bool.not_eq_true', ← Bool.not_eq_true, List.contains_iff_mem, List.mem_map (f := fileId project)]
    exact ⟨fun hnot path hp he => hnot ⟨path, hp, he.symm⟩, fun hall ⟨path, hp, he⟩ => hall path hp he.symm⟩
  refine ⟨h.files, h.made, fun path hp => by simpa using (List.mem_filter.1 hp).2, hrows,
    fun hids hfiles hapart q hq => (hrows q).2 ⟨?_, fun path hp => ?_⟩⟩
  · exact mem_rewrittenAll hids hfiles h.own hq
  · obtain ⟨w, hw, hq⟩ := List.mem_flatMap.1 hq
    rw [h.own w hw q hq]
    exact hapart w hw path hp

theorem completed (removed : Nat) (hs : s.status.isTerminal = false) :
    ({ s with filesRemoved := removed }.complete) = { s with filesRemoved := removed, status := .completed } := by
  unfold Session.complete Session.transition
  rw [hs]
  rfl

/-- A full run that ends well takes in all files and forgets the others, and tells what it wrote. -/
theorem Steady.indexRoot_spec (h : x.Steady chain σ) {tree : FileTree} {project : Project}
    (hd : c.discover tree project.root = .ok files) (hr : x.indexRoot c tree project force = (x', .ok s)) :
    let y := x.migrated project.id
    let pending := files.filterMap (y.pending? c project.id force)
    s.status = .completed ∧ s.migrated = x.world.needsMigration project.id ∧ s.filesFound = s.told ∧
      ∃ ws gone, x.Rewritten c chain project.id files force ws gone x' ∧
        ((Contract.answering c.pipeline chain σ).Fits →
          Welcome (.answering c.pipeline chain σ) project.id pending y.world.store →
            s.filesProcessed = ws.length ∧ s.chunks = (written ws).length ∧ s.embeddings = (written ws).length) := by
  obtain ⟨hbooking, ws, hwrote, hcounted⟩ := (h.migrated project.id).intake_spec (c := c)
    (s := x.opened project.id files) rfl project.id force files
  rw [indexRoot_eq x force hd] at hr
  cases hr
  rw [completed _ hbooking.status]
  refine ⟨rfl, hbooking.migrated, ?_, ws, _, rewritten_of_wrote (h.settings ▸ hwrote), fun hk hw => ?_⟩
  · exact hbooking.found.trans (hbooking.told.trans (Nat.zero_add _)).symm
  · have hnew := hcounted hk hw
    exact ⟨hnew.processed.trans (Nat.zero_add _), hnew.chunks.trans (Nat.zero_add _),
      hnew.embeddings.trans (Nat.zero_add _)⟩

/-- What a run fails for is found out before it changes anything. -/
theorem failWith_tells (hs : s.status.isTerminal = false) (e : IndexError) : (failWith s e).Tells := by
  have hfail : (failWith s e).session =
      { s with errors := s.errors ++ [⟨none, e.message⟩], status := .failed } := by
    unfold failWith Session.fail
    rw [hs]
    rfl
  refine ⟨?_, ?_⟩ <;> rw [hfail]
  exact List.mem_append_right _ List.mem_cons_self

theorem indexProject_fails {tree : FileTree} {path : String}
    (h : x.indexProject c tree path force = (x', .error e)) : x' = x ∧ e.Tells := by
  unfold indexProject at h
  split at h
  · cases h
    exact ⟨rfl, failWith_tells rfl _⟩
  · rename_i project _
    cases hd : c.discover tree project.root with
    | error e =>
      unfold indexRoot at h
      rw [hd] at h
      cases h
      exact ⟨rfl, failWith_tells rfl _⟩
    | ok files =>
      rw [indexRoot_eq x force hd] at h
      cases h

theorem reindexFile_fails {tree : FileTree} {project : Project} {file : String}
    (h : x.reindexFile c tree project file force = (x', .error e)) : x' = x ∧ e.Tells := by
  unfold reindexFile at h
  split at h
  · exact indexProject_fails h
  · dsimp only at h
    split at h
    · cases h
      exact ⟨rfl, failWith_tells rfl _⟩
    · split at h
      · unfold reindexContent at h
        split at h
        · cases h
          exact ⟨rfl, failWith_tells rfl _⟩
        · dsimp only at h
          split at h <;> cases h
      · cases h
      · cases h
      · cases h

end Indexer

/-- In every state that can be reached over a store without a limit, a full run that ends well tells of all files that
it found, and of just the records that it wrote: what the store holds after it is what it held before, rewritten for
these files. A run that fails tells for what, and changes nothing. Nothing that comes later changes how a session
ended. -/
theorem sessions_account (s₀ : Store) (c : IndexerConfig) (x : Indexer) (hx : Indexer.Reachable s₀ c x)
    (hentries : s₀.entries = []) (hsane : s₀.Sane) (hlimit : s₀.settings.limit = none) (hparser : c.ParserFits)
    (hbounds : s₀.settings.bounded = true →
      c.maxFileBytes < 2 ^ 63 ∧ ∀ p ∈ x.world.providers, p.signature.dimensions < 2 ^ 63) :
    (∀ tree path force x' s, x.indexProject c tree path force = (x', .ok s) →
      ∃ project files ws gone, c.identifyProject tree path = .ok project ∧
        c.discover tree project.root = .ok files ∧ s.Accounts ws ∧
        x.Rewritten c (x.world.providers.map Provider.signature) project.id files force ws gone x') ∧
    (∀ tree path force x' e, x.indexProject c tree path force = (x', .error e) → x' = x ∧ e.Tells) ∧
    (∀ tree project file force x' e, x.reindexFile c tree project file force = (x', .error e) → x' = x ∧ e.Tells) ∧
    ∀ (s : Session) (events : List Session.Event), s.status = .completed ∨ s.status = .failed →
      (events.foldl Session.handle s).status = s.status ∧ (events.foldl Session.handle s).errors = s.errors := by
  refine ⟨fun tree path force x' s hrun => ?_, fun _ _ _ _ _ => Indexer.indexProject_fails,
    fun _ _ _ _ _ _ => Indexer.reindexFile_fails, fun s events hs => ?_⟩
  · have hsteady := hx.steady hsane (Store.identified_empty hentries)
    have hfits : (Contract.answering c.pipeline (x.world.providers.map Provider.signature) s₀.settings).Fits := by
      refine answering_fits fun q hq => ?_
      obtain ⟨p, hp, rfl⟩ := List.mem_map.1 hq
      exact ⟨fun hb => (hbounds hb).2 p hp, fun limit hl => absurd (hlimit.symm.trans hl) nofun⟩
    obtain ⟨project, files, hp, hd⟩ := Indexer.indexProject_ok hrun
    have hsmall : s₀.settings.bounded = true → ∀ f ∈ files, f.content.size < 2 ^ 63 := by
      intro hb f hf
      obtain ⟨-, -, -, hsize⟩ := Indexer.discover_accepts hd hf
      exact Nat.lt_of_le_of_lt hsize (hbounds hb).1
    rw [Indexer.indexProject_eq hp] at hrun
    obtain ⟨hstatus, -, htold, ws, gone, hrewritten, hcounted⟩ := hsteady.indexRoot_spec hd hrun
    obtain ⟨hprocessed, hchunks, hembeddings⟩ :=
      hcounted hfits ((hsteady.migrated project.id).welcome hfits hparser hsmall project.id force)
    exact ⟨project, files, ws, gone, hp, hd, ⟨hstatus, htold, hprocessed, hchunks, hembeddings⟩, hrewritten⟩
  · have hended : s.status.isTerminal = true := by
      rcases hs with hs | hs <;> rw [hs] <;> rfl
    rw [Session.handleAll_ended hended]
    exact ⟨rfl, rfl⟩

/-- A process with a provider that fails at first, and the hashing provider. -/
def failingFirst : Process where
  config := plainConfig
  health := ⟨3, 3600000, 3, 60000, 8⟩
  providers := [failingOnce, .hashing 8]
  ops := []

/-- A run over one file writes one record, by the second provider, and the store holds no other. There is nothing at
another path, and a file elsewhere is none of the project. -/
theorem sessions_account_oneFile :
    let x := failingFirst.begin (.table {})
    (∃ x' s, x.indexProject plainConfig oneFile "/" false = (x', .ok s) ∧ s.errors = [] ∧
      ∃ ws, s.Accounts ws ∧ (written ws).length = 1 ∧ x'.world.store.rows.length = 1 ∧
        ∀ q ∈ x'.world.store.rows, q ∈ written ws) ∧
    (∃ e, x.indexProject plainConfig oneFile "/b" false = (x, .error e) ∧ e.Tells) ∧
    (∃ e, x.reindexFile plainConfig oneFile { oneProject with root := "/b" } "/a.md" false = (x, .error e) ∧ e.Tells) ∧
    ((({ project := "p", status := .failed } : Session).handle .complete).status = .failed) := by
  intro x
  have hreached : Indexer.Reachable (.table {}) plainConfig x := .begin failingFirst (by decide)
  obtain ⟨hok, hfails, hfile, hended⟩ := sessions_account (.table {}) plainConfig x hreached rfl (Nat.two_pow_pos 63)
    rfl nofun fun _ => ⟨by decide, by decide⟩
  have hfollowed : (x.followed?.map fun y => (y.2.errors, y.2.embeddings, y.1.world.store.rows.length)) =
      some ([], 1, 1) := by decide +kernel
  obtain ⟨⟨x', s⟩, hrun, he⟩ := Option.map_eq_some_iff.1 hfollowed
  obtain ⟨herrors, he⟩ := Prod.mk.inj he
  obtain ⟨hembeddings, hrows⟩ := Prod.mk.inj he
  have hsame : x.world.needsMigration oneProject.id = false := by decide +kernel
  have hfirst := Indexer.indexProject_followed hsame hrun
  obtain ⟨project, files, ws, gone, -, -, haccounts, hrewritten⟩ := hok oneFile "/" false x' s hfirst
  obtain ⟨e, he⟩ : ∃ e, (x.indexProject plainConfig oneFile "/b" false).2 = .error e := ⟨_, rfl⟩
  obtain ⟨e', he'⟩ : ∃ e, (x.reindexFile plainConfig oneFile { oneProject with root := "/b" } "/a.md" false).2 =
      .error e := by
    rw [Indexer.reindexFile, if_neg (Bool.not_eq_true _ ▸ hsame)]
    exact ⟨_, rfl⟩
  obtain ⟨hleft, htells⟩ := hfails oneFile "/b" false _ e (Prod.ext rfl he)
  obtain ⟨hleft', htells'⟩ := hfile oneFile { oneProject with root := "/b" } "/a.md" false _ e' (Prod.ext rfl he')
  refine ⟨⟨x', s, hfirst, herrors, ws, haccounts, haccounts.embeddings.symm.trans hembeddings, hrows, fun q hq => ?_⟩,
    ⟨e, Prod.ext hleft he, htells⟩, ⟨e', Prod.ext hleft' he', htells'⟩,
    (hended { project := "p", status := .failed } [.complete] (.inr rfl)).1⟩
  rcases hrewritten.source hq with hq | hq
  · exact absurd (x.rows_migrated project.id q hq) List.not_mem_nil
  · exact hq

end CodeIndex
