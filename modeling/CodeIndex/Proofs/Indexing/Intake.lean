import CodeIndex.Proofs.Files.Walk
import CodeIndex.Proofs.Indexing.Ending
import CodeIndex.Proofs.Indexing.Words

/-!
Files on their way into an index. All of them are read before the first is embedded; those whose content is recorded
are left out. What a file is embedded for depends on the store alone, and not on the words of the files before it.
-/

namespace CodeIndex

open CodeIndex.Embedding Files Lexical

variable {c : IndexerConfig} {x x' : Indexer} {project : String} {force : Bool} {f : Discovered}
  {files : List Discovered} {s s' : Session}

/-- The words of a file with some content. -/
def IndexerConfig.words (c : IndexerConfig) (path : String) (language : Language) (content : ByteArray) : List Entry :=
  let outline := Chunk.parseBytes language content (c.parser language)
  Index.wordsOf path outline.chunks outline.symbols

namespace Indexer

/-- What a file is embedded for, if it is. -/
def pending? (c : IndexerConfig) (x : Indexer) (project : String) (force : Bool) (f : Discovered) : Option Prepared :=
  match f.language with
  | .error _ => none
  | .ok language => if !force && x.isRecorded project f then none else some (c.prepared project f language)

theorem pending?_spec {p : Prepared} (h : x.pending? c project force f = some p) :
    ∃ language, f.language = .ok language ∧ p = c.prepared project f language := by
  unfold pending? at h
  split at h
  · cases h
  · rename_i language hl
    split at h
    · cases h
    · exact ⟨language, hl, (Option.some.inj h).symm⟩

/-- A file that is left out has its content recorded. -/
theorem recorded_of_pending? {language : Language} (hl : f.language = .ok language)
    (h : x.pending? c project force f = none) : force = false ∧ x.isRecorded project f = true := by
  unfold pending? at h
  split at h
  · rename_i hn
    cases hn.symm.trans hl
  · split at h
    · rename_i hu
      rwa [Bool.and_eq_true, Bool.not_eq_true'] at hu
    · cases h

theorem isRecorded_congr (h : x'.world.store = x.world.store) (project : String) (f : Discovered) :
    x'.isRecorded project f = x.isRecorded project f := by
  unfold isRecorded recorded?
  rw [h]

theorem pending?_congr (h : x'.world.store = x.world.store) :
    x'.pending? c project force f = x.pending? c project force f := by
  unfold pending?
  rw [isRecorded_congr h]

theorem prepare_unread {e : IndexError} (h : f.language = .error e) : x.prepare c project f force = (x, .error e) := by
  unfold prepare
  rw [h]

/-- The words of a file are its own after it is read, unless they are there and its content is recorded. -/
theorem prepare_ok (c : IndexerConfig) (x : Indexer) (project : String) (force : Bool) {language : Language}
    (h : f.language = .ok language) :
    ∃ chunks symbols lexical, Index.wordsOf f.rel chunks symbols = c.words f.rel language f.content ∧
      x.prepare c project f force =
        ({ x with lexical }, .ok ((x.pending? c project force f).map (⟨·, symbols.length⟩))) ∧
      (lexical = x.lexical.indexFile project f.rel chunks symbols ∧
          (force = false → x.isRecorded project f = true → x.lexical.words? project f.rel = none) ∨
        lexical = x.lexical ∧ force = false ∧ x.isRecorded project f = true ∧
          (x.lexical.words? project f.rel).isSome = true) := by
  refine ⟨(Chunk.parseBytes language f.content (c.parser language)).chunks,
    (Chunk.parseBytes language f.content (c.parser language)).symbols, ?_⟩
  unfold prepare pending?
  rw [h, Index.containsFile_eq]
  dsimp only
  cases hu : !force && x.isRecorded project f with
  | false =>
    refine ⟨_, rfl, rfl, .inl ⟨rfl, fun hforce hr => ?_⟩⟩
    rw [hforce, hr] at hu
    cases hu
  | true =>
    rw [Bool.true_and]
    rw [Bool.and_eq_true, Bool.not_eq_true'] at hu
    cases hw : (x.lexical.words? project f.rel).isSome with
    | false => exact ⟨_, rfl, rfl, .inl ⟨rfl, fun _ _ => by simpa using hw⟩⟩
    | true => exact ⟨_, rfl, rfl, .inr ⟨rfl, hu.1, hu.2, rfl⟩⟩

/-- What reading files does to the words: each file has its own, unless those of a recorded content are there, and what
is kept for other paths stays. -/
structure Reads (c : IndexerConfig) (project : String) (force : Bool) (files : List Discovered) (x : Indexer)
    (after : Index) : Prop where
  words : ∀ f ∈ files, ∀ language, f.language = .ok language →
    after.words? project f.rel = some (c.words f.rel language f.content) ∨
      force = false ∧ x.isRecorded project f = true ∧ (x.lexical.words? project f.rel).isSome = true ∧
        after.words? project f.rel = x.lexical.words? project f.rel
  kept : ∀ f ∈ files, force = false → x.isRecorded project f = true →
    (x.lexical.words? project f.rel).isSome = true → after.words? project f.rel = x.lexical.words? project f.rel
  others : ∀ q path, (q = project → ∀ f ∈ files, f.rel = path → ∃ e, f.language = .error e) →
    after.words? q path = x.lexical.words? q path
  ordered : x.lexical.Ordered → after.Ordered

theorem Reads.skip {after : Index} {e : IndexError} (h : Reads c project force files x after)
    (hf : f.language = .error e) (hnew : ∀ g ∈ files, g.rel ≠ f.rel) : Reads c project force (f :: files) x after where
  words := by
    intro g hg language hl
    rcases List.mem_cons.1 hg with rfl | hg
    · rw [hf] at hl
      cases hl
    · exact h.words g hg language hl
  kept := by
    intro g hg hforce hr hw
    rcases List.mem_cons.1 hg with rfl | hg
    · exact h.others project g.rel fun _ g' hg' he => absurd he (hnew g' hg')
    · exact h.kept g hg hforce hr hw
  others q path hq := h.others q path fun he g hg => hq he g (List.mem_cons_of_mem f hg)
  ordered := h.ordered

theorem Reads.cons {language : Language} {chunks : List Chunk} {symbols : List Symbol} {lexical after : Index}
    (h : Reads c project force files { x with lexical } after) (hf : f.language = .ok language)
    (hnew : ∀ g ∈ files, g.rel ≠ f.rel)
    (hw : Index.wordsOf f.rel chunks symbols = c.words f.rel language f.content)
    (hl : lexical = x.lexical.indexFile project f.rel chunks symbols ∧
        (force = false → x.isRecorded project f = true → x.lexical.words? project f.rel = none) ∨
      lexical = x.lexical ∧ force = false ∧ x.isRecorded project f = true ∧
        (x.lexical.words? project f.rel).isSome = true) : Reads c project force (f :: files) x after := by
  have hsame : ∀ q path, (q = project → path ≠ f.rel) → lexical.words? q path = x.lexical.words? q path := by
    intro q path hq
    rcases hl with ⟨rfl, -⟩ | ⟨rfl, -⟩
    · rw [Index.words?_indexFile, if_neg fun he => hq he.1 he.2]
    · rfl
  have hown : after.words? project f.rel = lexical.words? project f.rel :=
    h.others project f.rel fun _ g hg he => absurd he (hnew g hg)
  refine ⟨?_, ?_, ?_, fun ho => h.ordered ?_⟩
  · intro g hg language' hg'
    rcases List.mem_cons.1 hg with rfl | hg
    · rw [hf] at hg'
      cases hg'
      rw [hown]
      rcases hl with ⟨rfl, -⟩ | ⟨rfl, hforce, hr, hs⟩
      · rw [Index.words?_indexFile, if_pos ⟨rfl, rfl⟩, hw]
        exact .inl rfl
      · exact .inr ⟨hforce, hr, hs, rfl⟩
    · have := h.words g hg language' hg'
      dsimp only at this
      rwa [hsame project g.rel fun _ => hnew g hg, isRecorded_congr rfl] at this
  · intro g hg hforce hr hs
    rcases List.mem_cons.1 hg with rfl | hg
    · rw [hown]
      rcases hl with ⟨-, hnone⟩ | ⟨rfl, -⟩
      · rw [hnone hforce hr] at hs
        cases hs
      · rfl
    · have := h.kept g hg hforce (by rwa [isRecorded_congr rfl])
      dsimp only at this
      rw [hsame project g.rel fun _ => hnew g hg] at this
      exact this hs
  · intro q path hq
    rw [h.others q path fun he g hg => hq he g (List.mem_cons_of_mem f hg)]
    refine hsame q path fun he hp => ?_
    obtain ⟨e, hnone⟩ := hq he f List.mem_cons_self hp.symm
    cases hf.symm.trans hnone
  · rcases hl with ⟨rfl, -⟩ | ⟨rfl, -⟩
    · exact ho.indexFile project f.rel chunks symbols
    · exact ho

theorem prepareAll_unread {e : IndexError} (h : f.language = .error e) :
    prepareAll c project force x s (f :: files) =
      prepareAll c project force x (s.recordError (some f.rel) e.message) files := by
  rw [prepareAll, prepare_unread h]

theorem prepareAll_settled {lexical : Index} (h : x.prepare c project f force = ({ x with lexical }, .ok none)) :
    prepareAll c project force x s (f :: files) =
      prepareAll c project force { x with lexical } { s with filesSkipped := s.filesSkipped + 1 } files := by
  rw [prepareAll, h]

theorem prepareAll_pending {lexical : Index} {p : Pending}
    (h : x.prepare c project f force = ({ x with lexical }, .ok (some p))) :
    prepareAll c project force x s (f :: files) =
      let rest := prepareAll c project force { x with lexical } s files
      (rest.1, rest.2.1, p :: rest.2.2) := by
  rw [prepareAll, h]

theorem pending?_unread {e : IndexError} (h : f.language = .error e) : x.pending? c project force f = none := by
  unfold pending?
  rw [h]

/-- Reading files leaves the world as it is, and tells which of them are to be embedded. -/
theorem prepareAll_files (c : IndexerConfig) (x : Indexer) (project : String) (force : Bool) (s : Session)
    (files : List Discovered) :
    (prepareAll c project force x s files).1.world = x.world ∧
      (prepareAll c project force x s files).2.2.map (·.prepared) = files.filterMap (x.pending? c project force) := by
  induction files generalizing x s with
  | nil => exact ⟨rfl, rfl⟩
  | cons f files ih =>
    cases hf : f.language with
    | error e =>
      rw [prepareAll_unread hf, List.filterMap_cons_none (pending?_unread hf)]
      exact ih x (s.recordError (some f.rel) e.message)
    | ok language =>
      obtain ⟨chunks, symbols, lexical, -, hprepare, -⟩ := prepare_ok c x project force hf
      have hpend : { x with lexical }.pending? c project force = x.pending? c project force :=
        funext fun _ => pending?_congr rfl
      cases hp : x.pending? c project force f with
      | none =>
        rw [hp] at hprepare
        rw [prepareAll_settled hprepare, List.filterMap_cons_none hp, ← hpend]
        exact ih { x with lexical } { s with filesSkipped := s.filesSkipped + 1 }
      | some p =>
        rw [hp] at hprepare
        rw [prepareAll_pending hprepare, List.filterMap_cons_some hp, ← hpend]
        obtain ⟨hworld, hpending⟩ := ih { x with lexical } s
        exact ⟨hworld, congrArg (p :: ·) hpending⟩

/-- Reading files fills in their words. -/
theorem prepareAll_reads (c : IndexerConfig) (x : Indexer) (project : String) (force : Bool) (s : Session)
    (hn : (files.map (·.rel)).Nodup) :
    Reads c project force files x (prepareAll c project force x s files).1.lexical := by
  induction files generalizing x s with
  | nil => exact ⟨nofun, nofun, fun _ _ _ => rfl, fun h => h⟩
  | cons f files ih =>
    obtain ⟨hfirst, hn⟩ := List.nodup_cons.1 hn
    have hnew : ∀ g ∈ files, g.rel ≠ f.rel := fun g hg he => hfirst (List.mem_map.2 ⟨g, hg, he⟩)
    cases hf : f.language with
    | error e =>
      rw [prepareAll_unread hf]
      exact (ih x (s.recordError (some f.rel) e.message) hn).skip hf hnew
    | ok language =>
      obtain ⟨chunks, symbols, lexical, hw, hprepare, hl⟩ := prepare_ok c x project force hf
      cases hp : x.pending? c project force f with
      | none =>
        rw [hp] at hprepare
        rw [prepareAll_settled hprepare]
        exact (ih { x with lexical } { s with filesSkipped := s.filesSkipped + 1 } hn).cons hf hnew hw hl
      | some p =>
        rw [hp] at hprepare
        rw [prepareAll_pending hprepare]
        exact (ih { x with lexical } s hn).cons hf hnew hw hl

/-- What reading files tells: for each of them that has no language or cannot be read why that is so, and how many need
nothing. All others are to be embedded. -/
structure Remarks (c : IndexerConfig) (x : Indexer) (project : String) (force : Bool) (files : List Discovered)
    (errors : List SessionError) (skipped : Nat) : Prop where
  unread : ∀ f ∈ files, ∀ e, f.language = .error e → ⟨some f.rel, e.message⟩ ∈ errors
  paths : ∀ e ∈ errors, e.path.isSome = true
  count : files.length = skipped + errors.length + (files.filterMap (x.pending? c project force)).length

namespace Remarks

variable {errors : List SessionError} {skipped : Nat}

theorem failed {e : IndexError} (h : Remarks c x project force files errors skipped) (hf : f.language = .error e) :
    Remarks c x project force (f :: files) (⟨some f.rel, e.message⟩ :: errors) skipped where
  unread g hg e' he := by
    rcases List.mem_cons.1 hg with rfl | hg
    · cases hf.symm.trans he
      exact List.mem_cons_self
    · exact List.mem_cons_of_mem _ (h.unread g hg e' he)
  paths := List.forall_mem_cons.2 ⟨rfl, h.paths⟩
  count := by
    rw [List.filterMap_cons_none (pending?_unread hf), List.length_cons, List.length_cons, h.count]
    omega

theorem unread_cons {language : Language} (h : Remarks c x project force files errors skipped)
    (hf : f.language = .ok language) : ∀ g ∈ f :: files, ∀ e, g.language = .error e → ⟨some g.rel, e.message⟩ ∈ errors := by
  intro g hg e he
  rcases List.mem_cons.1 hg with rfl | hg
  · cases hf.symm.trans he
  · exact h.unread g hg e he

theorem settled {language : Language} (h : Remarks c x project force files errors skipped)
    (hf : f.language = .ok language) (hp : x.pending? c project force f = none) :
    Remarks c x project force (f :: files) errors (skipped + 1) where
  unread := h.unread_cons hf
  paths := h.paths
  count := by
    rw [List.filterMap_cons_none hp, List.length_cons, h.count]
    omega

theorem pending {language : Language} {p : Prepared} (h : Remarks c x project force files errors skipped)
    (hf : f.language = .ok language) (hp : x.pending? c project force f = some p) :
    Remarks c x project force (f :: files) errors skipped where
  unread := h.unread_cons hf
  paths := h.paths
  count := by
    rw [List.filterMap_cons_some hp, List.length_cons, List.length_cons, h.count]
    omega

end Remarks

/-- Reading files changes nothing of a session but what it tells of them. -/
theorem prepareAll_session (c : IndexerConfig) (x : Indexer) (project : String) (force : Bool) (files : List Discovered)
    (hs : s.status.isTerminal = false) :
    ∃ errors skipped, Remarks c x project force files errors skipped ∧
      (prepareAll c project force x s files).2.1 =
        { s with errors := s.errors ++ errors, filesSkipped := s.filesSkipped + skipped } := by
  induction files generalizing x s with
  | nil =>
    refine ⟨[], 0, ⟨nofun, nofun, rfl⟩, ?_⟩
    rw [List.append_nil]
    rfl
  | cons f files ih =>
    cases hf : f.language with
    | error e =>
      have hrecorded : s.recordError (some f.rel) e.message =
          { s with errors := s.errors ++ [⟨some f.rel, e.message⟩] } := by
        rw [Session.recordError, hs, if_neg Bool.false_ne_true]
      rw [prepareAll_unread hf, hrecorded]
      obtain ⟨errors, skipped, hremarks, hsession⟩ :=
        ih (x := x) (s := { s with errors := s.errors ++ [⟨some f.rel, e.message⟩] }) hs
      refine ⟨_, skipped, hremarks.failed hf, ?_⟩
      rw [hsession, List.append_assoc, List.singleton_append]
    | ok language =>
      obtain ⟨chunks, symbols, lexical, -, hprepare, -⟩ := prepare_ok c x project force hf
      have hpend : { x with lexical }.pending? c project force = x.pending? c project force :=
        funext fun _ => pending?_congr rfl
      have hback : ∀ {errors skipped}, Remarks c { x with lexical } project force files errors skipped →
          Remarks c x project force files errors skipped := fun h => ⟨h.unread, h.paths, hpend ▸ h.count⟩
      cases hp : x.pending? c project force f with
      | none =>
        rw [hp] at hprepare
        rw [prepareAll_settled hprepare]
        obtain ⟨errors, skipped, hremarks, hsession⟩ :=
          ih (x := { x with lexical }) (s := { s with filesSkipped := s.filesSkipped + 1 }) hs
        refine ⟨errors, skipped + 1, (hback hremarks).settled hf hp, ?_⟩
        rw [hsession, Nat.add_assoc, Nat.add_comm 1]
      | some p =>
        rw [hp] at hprepare
        rw [prepareAll_pending hprepare]
        obtain ⟨errors, skipped, hremarks, hsession⟩ := ih (x := { x with lexical }) (s := s) hs
        exact ⟨errors, skipped, (hback hremarks).pending hf hp, hsession⟩

/-- An outcome without an error counts chunks and embeddings, and any other is an error of the session. -/
theorem foldl_book (outcomes : List Outcome) (hs : s.status.isTerminal = false) :
    (outcomes.foldl book s).status = s.status ∧ (outcomes.foldl book s).filesFound = s.filesFound ∧
      (outcomes.foldl book s).filesSkipped = s.filesSkipped ∧ (outcomes.foldl book s).migrated = s.migrated ∧
      (outcomes.foldl book s).errors =
        s.errors ++ outcomes.filterMap fun o => o.error.map fun e => ⟨some o.path, e.message⟩ := by
  induction outcomes generalizing s with
  | nil => exact ⟨rfl, rfl, rfl, rfl, (List.append_nil _).symm⟩
  | cons o outcomes ih =>
    rw [List.foldl_cons]
    cases he : o.error with
    | none =>
      have hstep : book s o = { s with
          filesProcessed := s.filesProcessed + 1, chunks := s.chunks + o.chunks
          embeddings := s.embeddings + o.embedded } := by
        unfold book
        rw [he]
      rw [hstep, List.filterMap_cons_none (by rw [he]; rfl)]
      exact ih hs
    | some e =>
      have hstep : book s o = { s with errors := s.errors ++ [⟨some o.path, e.message⟩] } := by
        unfold book Session.recordError
        rw [he, hs]
        rfl
      rw [List.filterMap_cons_some (show _ = some ⟨some o.path, e.message⟩ by rw [he]; rfl), List.append_cons, hstep]
      exact ih hs

/-- Reading some files and embedding those that have to be. -/
def intake (c : IndexerConfig) (x : Indexer) (project : String) (force : Bool) (s : Session)
    (files : List Discovered) : Indexer × Session :=
  let (x, s, pending) := prepareAll c project force x s files
  x.embed c project (pending.map (·.prepared)) { s with symbols := s.symbols + total (pending.map (·.symbols)) }

variable {σ : Store.Settings} {k : Contract c.pipeline σ} {log : List (Prepared × Outcome)}

/-- What embedding files does to an indexer and to a session. -/
structure Embeds (k : Contract c.pipeline σ) (project : String) (files : List Prepared) (x x' : Indexer)
    (s s' : Session) (log : List (Prepared × Outcome)) : Prop where
  lexical : x'.lexical = x.lexical
  traced : Traced k project x.world.store log x'.world.store
  mem : ∀ y ∈ log, y.1 ∈ files
  keeps : x.world.store.Keeps x'.world.store
  floor : k.floor x'.world.providers x'.world.health
  idle : x.world.health.Idle → x'.world.health.Idle ∧ (log.map (·.1)).Perm files
  status : s'.status.isTerminal = false
  found : s'.filesFound = s.filesFound
  skipped : s'.filesSkipped = s.filesSkipped
  migrated : s'.migrated = s.migrated
  errors : s'.errors = s.errors ++ log.filterMap fun y => y.2.error.map fun e => ⟨some y.2.path, e.message⟩

theorem embed_spec (hf : k.floor x.world.providers x.world.health) (hσ : x.world.store.settings = σ)
    (hsane : x.world.store.Sane) (hs : s.status.isTerminal = false) (project : String) (files : List Prepared) :
    ∃ log, Embeds k project files x (x.embed c project files s).1 s (x.embed c project files s).2 log := by
  subst hσ
  unfold embed
  split
  · rename_i he
    rw [List.isEmpty_iff.1 he]
    exact ⟨[], rfl, .start, nofun, .refl _, hf, fun hi => ⟨hi, .refl []⟩, hs, rfl, rfl, rfl, (List.append_nil _).symm⟩
  · obtain ⟨log, ht, ho, hm, hfloor, hkeeps, hidle⟩ := generate_traced k hf hsane project files
    have hstatus : (s.transition .embedding).status.isTerminal = false := by
      rw [Session.transition, hs]
      rfl
    obtain ⟨h₁, h₂, h₃, h₄, h₅⟩ := foldl_book (x.world.generate c.pipeline project files false).2.outcomes hstatus
    have hkept : (s.transition .embedding).filesFound = s.filesFound ∧
        (s.transition .embedding).filesSkipped = s.filesSkipped ∧
        (s.transition .embedding).migrated = s.migrated ∧ (s.transition .embedding).errors = s.errors := by
      rw [Session.transition, hs]
      exact ⟨rfl, rfl, rfl, rfl⟩
    refine ⟨log, rfl, ht, hm, hkeeps, hfloor, hidle, h₁ ▸ hstatus, h₂.trans hkept.1, h₃.trans hkept.2.1,
      h₄.trans hkept.2.2.1, h₅.trans ?_⟩
    rw [hkept.2.2.2, ← ho, List.filterMap_map]
    rfl

/-- What reading and embedding files does to an indexer and to a session. -/
structure Intake (k : Contract c.pipeline σ) (project : String) (force : Bool) (files : List Discovered)
    (x x' : Indexer) (s s' : Session) (log : List (Prepared × Outcome)) : Prop where
  reads : Reads c project force files x x'.lexical
  traced : Traced k project x.world.store log x'.world.store
  mem : ∀ y ∈ log, y.1 ∈ files.filterMap (x.pending? c project force)
  keeps : x.world.store.Keeps x'.world.store
  floor : k.floor x'.world.providers x'.world.health
  idle : x.world.health.Idle →
    x'.world.health.Idle ∧ (log.map (·.1)).Perm (files.filterMap (x.pending? c project force))
  status : s'.status.isTerminal = false
  found : s'.filesFound = s.filesFound
  migrated : s'.migrated = s.migrated
  unread : ∀ f ∈ files, ∀ e, f.language = .error e → ⟨some f.rel, e.message⟩ ∈ s'.errors
  failed : ∀ y ∈ log, y.2.error ≠ none → ∃ e ∈ s'.errors, e.path = some y.2.path

/-- In a session without errors all files have languages, were read, and were embedded if they had to be. -/
theorem Intake.errors {project : String} {force : Bool} {x' : Indexer} {s' : Session}
    (h : Intake k project force files x x' s s' log) (he : s'.errors = []) :
    (∀ f ∈ files, ∃ language, f.language = .ok language) ∧ ∀ y ∈ log, y.2.error = none := by
  constructor
  · intro f hf
    cases hl : f.language with
    | ok language => exact ⟨language, rfl⟩
    | error e =>
      have hmem := h.unread f hf e hl
      simp [he] at hmem
  · intro y hy
    by_contra hne
    obtain ⟨e, hmem, -⟩ := h.failed y hy hne
    simp [he] at hmem

theorem intake_spec (hf : k.floor x.world.providers x.world.health) (hσ : x.world.store.settings = σ)
    (hsane : x.world.store.Sane) (hs : s.status.isTerminal = false) (hn : (files.map (·.rel)).Nodup) (project : String)
    (force : Bool) :
    ∃ log, Intake k project force files x (x.intake c project force s files).1 s
      (x.intake c project force s files).2 log := by
  obtain ⟨hworld, hpending⟩ := prepareAll_files c x project force s files
  have hreads := prepareAll_reads c x project force s hn
  obtain ⟨errors, skipped, hremarks, hsession⟩ := prepareAll_session c x project force files hs
  unfold intake
  dsimp only
  rw [hpending]
  generalize prepareAll c project force x s files = read at *
  obtain ⟨x₁, s₁, pending⟩ := read
  dsimp only at *
  rw [← hworld] at hf hσ hsane
  obtain ⟨log, he⟩ := embed_spec (s := { s₁ with symbols := s₁.symbols + total (pending.map (·.symbols)) }) hf hσ hsane
    (hsession ▸ hs) project (files.filterMap (x.pending? c project force))
  refine ⟨log, he.lexical ▸ hreads, hworld ▸ he.traced, he.mem, hworld ▸ he.keeps, he.floor, hworld ▸ he.idle,
    he.status, ?_, ?_, ?_, ?_⟩
  · rw [he.found, hsession]
  · rw [he.migrated, hsession]
  · intro f hf e hl
    rw [he.errors, hsession]
    exact List.mem_append_left _ (List.mem_append_right _ (hremarks.unread f hf e hl))
  · intro y hy hne
    obtain ⟨e, hye⟩ := Option.ne_none_iff_exists'.1 hne
    rw [he.errors]
    exact ⟨⟨some y.2.path, e.message⟩,
      List.mem_append_right _ (List.mem_filterMap.2 ⟨y, hy, by rw [hye]; rfl⟩), rfl⟩

/-- With nothing to read or to embed nothing happens. -/
theorem intake_settled (s : Session)
    (hl : ∀ f ∈ files, ∃ language, f.language = .ok language)
    (hr : ∀ f ∈ files, x.isRecorded project f = true ∧ (x.lexical.words? project f.rel).isSome = true) :
    x.intake c project false s files = (x, { s with filesSkipped := s.filesSkipped + files.length }) := by
  have hall : ∀ s, prepareAll c project false x s files =
      (x, { s with filesSkipped := s.filesSkipped + files.length }, []) := by
    induction files with
    | nil => exact fun s => rfl
    | cons f files ih =>
      intro s
      obtain ⟨language, hf⟩ := hl f List.mem_cons_self
      obtain ⟨hrecorded, hwords⟩ := hr f List.mem_cons_self
      have hprepare : x.prepare c project f false = (x, .ok none) := by
        unfold prepare
        rw [hf, Index.containsFile_eq, hrecorded, hwords]
        rfl
      rw [prepareAll, hprepare]
      dsimp only
      rw [ih (fun g hg => hl g (List.mem_cons_of_mem f hg)) (fun g hg => hr g (List.mem_cons_of_mem f hg)),
        List.length_cons, Nat.add_assoc, Nat.add_comm 1]
  unfold intake
  rw [hall s]
  rfl

end Indexer

end CodeIndex
