import CodeIndex.Proofs.Indexing.Settled

/-!
Indexing a tree again that has not changed. After a run without errors the next one does nothing at all, unless some
record is of another model than the first provider that may be called: that is taken for a change of the model, also
if it was another provider, or vectors of another length, that the first run was answered by.
-/

namespace CodeIndex

open CodeIndex.Embedding Files Lexical Relation

variable {c : IndexerConfig} {S : Scope} {x x' : Indexer} {project : String} {files : List Discovered}

/-- Some record of a project is of another model than that of the first provider that may be called. -/
def Embedding.World.Outdated (w : World) (project : String) : Prop :=
  ∃ current, w.activeSignature = some current ∧
    ∃ r ∈ w.store.rows, r.project = project ∧ r.signature ≠ current

theorem needsMigration_iff {w : World} : w.needsMigration project = true ↔ w.Outdated project := by
  unfold World.needsMigration World.Outdated
  cases w.activeSignature with
  | none => simp
  | some current =>
    rw [Store.changed_iff]
    simp

namespace Indexer

theorem removeOrphans_none (h : ∀ path ∈ x.paths project, path ∈ files.map (·.rel)) :
    x.removeOrphans project (files.map (·.rel)) = (x, 0) := by
  have hnil : (x.paths project).filter (fun rel => !(files.map (·.rel)).contains rel) = [] := by
    rw [List.filter_eq_nil_iff]
    intro path hp
    simpa using h path hp
  unfold removeOrphans
  rw [hnil]
  rfl

/-- A full run that ends well has a project and its files, and settles them if it has no errors. -/
theorem indexProject_ok {tree : FileTree} {path : String} {force : Bool} {s : Session}
    (h : x.indexProject c tree path force = (x', .ok s)) :
    ∃ project files, c.identifyProject tree path = .ok project ∧ c.discover tree project.root = .ok files := by
  unfold indexProject at h
  split at h
  · cases h
  · rename_i project hp
    cases hd : c.discover tree project.root with
    | error e =>
      unfold indexRoot at h
      rw [hd] at h
      cases h
    | ok files => exact ⟨project, files, hp, hd⟩

theorem errors_complete (s : Session) : s.complete.errors = s.errors := by
  unfold Session.complete Session.transition
  split <;> rfl

variable {σ : Store.Settings} {k : Contract c.pipeline σ}

theorem Named.migrated (h : x.Named k S) (project : String) : (x.migrated project).Named k S := by
  unfold Indexer.migrated
  split
  · exact h.clear project
  · exact h

theorem intake_opened (h : x.Named k S) (hf : S.Takes project files) (force : Bool) :
    ∃ log, Intake k project force files (x.migrated project)
      ((x.migrated project).intake c project force (x.opened project files) files).1 (x.opened project files)
      ((x.migrated project).intake c project force (x.opened project files) files).2 log :=
  intake_spec (h.migrated project).floor (h.migrated project).settings (h.migrated project).keyed.sane rfl hf.nodup project
    force

/-- A full run that ends well takes in all files and then forgets the others. -/
theorem Named.indexRoot_ok (h : x.Named k S) {tree : FileTree} {project : Project} {force : Bool} {s : Session}
    (hd : c.discover tree project.root = .ok files) (hf : S.Takes project.id files)
    (hr : x.indexRoot c tree project force = (x', .ok s)) :
    ∃ y t log, Intake k project.id force files (x.migrated project.id) y (x.opened project.id files) t log ∧
      x' = (y.removeOrphans project.id (files.map (·.rel))).1 ∧ s.errors = t.errors ∧
      s.migrated = x.world.needsMigration project.id := by
  obtain ⟨log, hi⟩ := intake_opened h hf force
  rw [indexRoot_eq x force hd] at hr
  cases hr
  refine ⟨_, _, log, hi, rfl, errors_complete _, ?_⟩
  have hm := hi.migrated
  unfold Session.complete Session.transition
  dsimp only
  rw [hi.status]
  exact hm

/-- A run without errors settles all files, and each of them can be read and has a language. -/
theorem Named.settled_run (h : x.Named k S) {tree : FileTree} {project : Project} {force : Bool} {s : Session}
    (hd : c.discover tree project.root = .ok files) (hf : S.Takes project.id files)
    (hr : x.indexRoot c tree project force = (x', .ok s)) (hs : s.errors = []) :
    x'.Settled project.id files ∧ ∀ f ∈ files, ∃ language, f.language = .ok language := by
  obtain ⟨y, t, log, hi, rfl, he, -⟩ := h.indexRoot_ok hd hf hr
  obtain ⟨hlanguage, hok⟩ := hi.errors (he ▸ hs)
  exact ⟨(h.migrated project.id).settled hf hi hok, hlanguage⟩

/-- Over settled files a run that finds the model unchanged does nothing. -/
theorem Settled.rerun {tree : FileTree} {project : Project} (h : x.Settled project.id files)
    (hl : ∀ f ∈ files, ∃ language, f.language = .ok language) (hd : c.discover tree project.root = .ok files)
    (hm : x.world.needsMigration project.id = false) :
    ∃ s, x.indexRoot c tree project false = (x, .ok s) ∧ s.migrated = false ∧ s.embeddings = 0 ∧
      s.filesSkipped = s.filesFound ∧ s.errors = [] := by
  have he := indexRoot_eq x false hd
  rw [migrated_of_unchanged hm, intake_settled _ hl fun f hf => (hl f hf).elim (h.recorded f hf)] at he
  dsimp only at he
  rw [removeOrphans_none h.paths] at he
  exact ⟨_, he, hm, rfl, Nat.zero_add _, rfl⟩

/-- What a run says of migration is what it found at its start. -/
theorem Named.migrated_run (h : x.Named k S) {tree : FileTree} {project : Project}
    (hd : c.discover tree project.root = .ok files) (hf : S.Takes project.id files) (force : Bool) :
    ∃ x' s, x.indexRoot c tree project force = (x', .ok s) ∧ s.migrated = x.world.needsMigration project.id := by
  have hrun := indexRoot_eq x force hd
  obtain ⟨y, t, log, -, -, -, hm⟩ := h.indexRoot_ok hd hf hrun
  exact ⟨_, _, hrun, hm⟩

/-- An index without words is in order if the entries of its store are, with any providers. -/
theorem named_of_keyed (h : x.world.store.Keyed S) (hlexical : x.lexical = {}) (hidle : x.world.health.Idle) :
    x.Named (Contract.answering c.pipeline (x.world.providers.map Provider.signature) x.world.store.settings) S := by
  refine ⟨rfl, hidle, rfl, h, fun project path hw => ?_⟩
  rw [hlexical] at hw
  cases hw

theorem named_start (S : Scope) (hentries : x.world.store.entries = []) (hsane : x.world.store.Sane)
    (hlexical : x.lexical = {}) (hidle : x.world.health.Idle) :
    x.Named (Contract.answering c.pipeline (x.world.providers.map Provider.signature) x.world.store.settings) S := by
  refine named_of_keyed ⟨hsane, ?_, ?_⟩ hlexical hidle
  · rw [hentries]
    exact List.nodup_nil
  · rw [hentries]
    exact nofun

theorem Named.indexed (h : x.Named k S) {tree : FileTree} {path : String} {force : Bool}
    (ht : (Operation.index tree path force).Within S c) : (x.indexProject c tree path force).1.Named k S :=
  apply_preserves (fun _ _ => Named.change) ht h

theorem indexProject_eq {tree : FileTree} {path : String} {project : Project}
    (h : c.identifyProject tree path = .ok project) (x : Indexer) (force : Bool) :
    x.indexProject c tree path force = x.indexRoot c tree project force := by
  unfold indexProject
  rw [h]

/-- A run over a project with outdated records migrates. -/
theorem Named.outdated_run (h : x.Named k S) {tree : FileTree} {path : String} {project : Project} {force : Bool}
    (ht : (Operation.index tree path force).Within S c) (hp : c.identifyProject tree path = .ok project)
    (hd : c.discover tree project.root = .ok files) (hout : x.world.Outdated project.id) :
    ∃ x' s, x.indexProject c tree path force = (x', .ok s) ∧ s.migrated = true := by
  obtain ⟨x', s, he, hm⟩ := h.migrated_run hd (takes_of_covers (ht project hp) hd) force
  exact ⟨x', s, (indexProject_eq hp x force).trans he, hm.trans (needsMigration_iff.2 hout)⟩

end Indexer

/-- Where a run ends, if it does within so many steps. -/
def Embedding.Run.ends? (c : PipelineConfig) (project : String) : Nat → Run → Option Run
  | 0, _ => none
  | n + 1, r =>
    match r.step? c project with
    | none => some r
    | some r' => if Run.lighter (r'.work c) (r.work c) then ends? c project n r' else some r'

theorem complete_of_ends {c : PipelineConfig} {n : Nat} {r r' : Run} (h : r.ends? c project n = some r') :
    r.complete c project = r' := by
  induction n generalizing r with
  | zero => cases h
  | succ n ih =>
    unfold Run.ends? at h
    unfold Run.complete
    cases hs : r.step? c project with
    | none =>
      rw [hs] at h
      exact Option.some.inj h
    | some q =>
      rw [hs] at h
      dsimp only at h ⊢
      by_cases hl : Run.lighter (q.work c) (r.work c) = true
      · rw [if_pos hl] at h ⊢
        exact ih h
      · rw [if_neg hl] at h ⊢
        exact Option.some.inj h

namespace Indexer

/-- Files that are taken in, followed for some steps. -/
def taken? (c : IndexerConfig) (n : Nat) (x : Indexer) (project : String) (force : Bool) (s : Session)
    (files : List Discovered) : Option (Indexer × Session) :=
  let (y, s, pending) := prepareAll c project force x s files
  let s := { s with symbols := s.symbols + total (pending.map Pending.symbols) }
  if pending.isEmpty then some (y, s)
  else ((Run.start c.pipeline y.world (pending.map Pending.prepared)).ends? c.pipeline project n).map fun r =>
    ({ y with world := r.floor.toWorld }, r.outcomes.foldl book (s.transition .embedding))

theorem intake_of_taken {n : Nat} {force : Bool} {s : Session} {y : Indexer × Session}
    (h : x.taken? c n project force s files = some y) : x.intake c project force s files = y := by
  unfold intake taken? at *
  generalize prepareAll c project force x s files = read at *
  obtain ⟨z, t, pending⟩ := read
  dsimp only at *
  split at h <;> rename_i hempty
  · cases h
    rw [List.isEmpty_iff] at hempty
    rw [hempty]
    rfl
  · obtain ⟨r, hr, rfl⟩ := Option.map_eq_some_iff.1 h
    unfold embed World.generate
    rw [if_neg (by simpa using hempty)]
    dsimp only
    rw [if_neg Bool.false_ne_true]
    dsimp only
    rw [complete_of_ends hr]

/-- Where a full run ends, followed for some steps. -/
def ends? (c : IndexerConfig) (n : Nat) (x : Indexer) (project : String) (files : List Discovered) :
    Option (Indexer × Session) :=
  (x.taken? c n project false (x.opened project files) files).map fun y =>
    let (z, removed) := y.1.removeOrphans project (files.map (·.rel))
    (z, { y.2 with filesRemoved := removed }.complete)

theorem indexProject_of_ends {tree : FileTree} {path : String} {project : Project} {n : Nat} {t : Session}
    (hp : c.identifyProject tree path = .ok project) (hd : c.discover tree project.root = .ok files)
    (hm : x.world.needsMigration project.id = false) (h : x.ends? c n project.id files = some (x', t)) :
    x.indexProject c tree path false = (x', .ok t) := by
  obtain ⟨y, hy, he⟩ := Option.map_eq_some_iff.1 h
  cases he
  rw [indexProject_eq hp, indexRoot_eq x false hd, migrated_of_unchanged hm, intake_of_taken hy]
  rfl

/-- A first run over one file, followed for some steps. -/
def followed? (x : Indexer) : Option (Indexer × Session) :=
  (x.taken? plainConfig 10 oneProject.id false (x.opened oneProject.id [oneDiscovered]) [oneDiscovered]).map fun y =>
    let (z, removed) := y.1.removeOrphans oneProject.id [oneDiscovered.rel]
    (z, { y.2 with filesRemoved := removed }.complete)

theorem indexProject_followed {s : Session} (hm : x.world.needsMigration oneProject.id = false)
    (h : x.followed? = some (x', s)) : x.indexProject plainConfig oneFile "/" false = (x', .ok s) :=
  indexProject_of_ends identify_oneFile discover_oneFile hm h

end Indexer

/-- After a run without errors, whatever was done before, another run over the same tree leaves all as it is and calls
no provider, unless records are outdated; then it migrates. -/
theorem rerun_settled (c : IndexerConfig) (S : Scope) (x : Indexer) (ops : List Operation) (tree : FileTree)
    (path : String) (force : Bool) (x' : Indexer) (s' : Session) (hentries : x.world.store.entries = [])
    (hsane : x.world.store.Sane) (hlexical : x.lexical = {}) (hidle : x.world.health.Idle)
    (hops : ∀ op ∈ ops, op.Within S c) (htree : (Operation.index tree path force).Within S c)
    (hrun : (x.run c ops).indexProject c tree path force = (x', .ok s')) (hok : s'.errors = []) :
    ∃ project, c.identifyProject tree path = .ok project ∧
      (x'.world.Outdated project.id →
        ∃ x'' s'', x'.indexProject c tree path false = (x'', .ok s'') ∧ s''.migrated = true) ∧
      (¬x'.world.Outdated project.id →
        ∃ s'', x'.indexProject c tree path false = (x', .ok s'') ∧ s''.migrated = false ∧ s''.embeddings = 0 ∧
          s''.filesSkipped = s''.filesFound ∧ s''.errors = []) := by
  have hreached := Indexer.run_preserves (fun _ _ => Indexer.Named.change) hops
    (Indexer.named_start S hentries hsane hlexical hidle)
  have hafter := hreached.indexed htree
  rw [hrun] at hafter
  obtain ⟨project, files, hp, hd⟩ := Indexer.indexProject_ok hrun
  rw [Indexer.indexProject_eq hp] at hrun
  obtain ⟨hsettled, hlanguage⟩ := hreached.settled_run hd (Indexer.takes_of_covers (htree project hp) hd) hrun hok
  refine ⟨project, hp, fun hout => hafter.outdated_run htree hp hd hout, fun hout => ?_⟩
  obtain ⟨s'', he, hall⟩ := hsettled.rerun hlanguage hd (by rwa [← Bool.not_eq_true, needsMigration_iff])
  exact ⟨s'', (Indexer.indexProject_eq hp x' false).trans he, hall⟩

/-- The first run over one file with the hashing provider alone, and that its records are of the model of the provider,
also for the next process. -/
theorem followed_hashing :
    ∃ x' s', (freshIndexer (.memory {}) [.hashing 8]).followed? = some (x', s') ∧ s'.errors = [] ∧
      x'.world.needsMigration oneProject.id = false ∧
      (x'.restart [.hashing 8]).world.needsMigration oneProject.id = false ∧
      x'.world.health.config.defaultConcurrency = 8 := by
  have hfollowed : ((freshIndexer (.memory {}) [.hashing 8]).followed?.map fun y =>
      (y.2.errors, [y.1, y.1.restart [.hashing 8]].map (·.world.needsMigration oneProject.id),
        y.1.world.health.config.defaultConcurrency)) = some ([], [false, false], 8) := by decide +kernel
  obtain ⟨⟨x', s'⟩, hrun, he⟩ := Option.map_eq_some_iff.1 hfollowed
  simp only [List.map_cons, List.map_nil, Prod.mk.injEq, List.cons.injEq, and_true] at he
  exact ⟨x', s', hrun, he.1, he.2.1.1, he.2.1.2, he.2.2⟩

/-- With the hashing provider alone the second run over one file leaves all as it is. -/
theorem rerun_settled_oneFile :
    ∃ x' s', (freshIndexer (.memory {}) [.hashing 8]).indexProject plainConfig oneFile "/" false = (x', .ok s') ∧
      ∃ s'', x'.indexProject plainConfig oneFile "/" false = (x', .ok s'') ∧ s''.migrated = false ∧
        s''.embeddings = 0 ∧ s''.filesSkipped = s''.filesFound ∧ s''.errors = [] := by
  obtain ⟨x', s', hrun, herrors, hmigrates, -⟩ := followed_hashing
  have hfirst := Indexer.indexProject_followed rfl hrun
  obtain ⟨project, hp, -, hsettled⟩ := rerun_settled plainConfig oneScope (freshIndexer (.memory {}) [.hashing 8]) []
    oneFile "/" false x' s' rfl trivial rfl (Health.Registry.idle_empty (by decide)) nofun (index_oneFile_within false)
    hfirst herrors
  rw [identify_oneFile] at hp
  cases hp
  exact ⟨x', s', hfirst, hsettled (by rw [← needsMigration_iff, hmigrates]; exact Bool.false_ne_true)⟩

/-- A tree of two files that have the same relative path. -/
def samePaths : FileTree :=
  .dir [("a", .dir [("b.md", .file "x".toUTF8)]), ("a\\b.md", .file "y".toUTF8)]

def samePathsDiscovered : List Discovered :=
  [⟨"/a/b.md", "a/b.md", "x".toUTF8, {}⟩, ⟨"/a\\b.md", "a/b.md", "y".toUTF8, {}⟩]

/-- Each of two files with the same path takes the place of the other. -/
theorem rerun_samePaths :
    ∃ x' s' x'' s'',
      (freshIndexer (.memory {}) [.hashing 8]).indexProject plainConfig samePaths "/" false = (x', .ok s') ∧
        s'.errors = [] ∧ x'.indexProject plainConfig samePaths "/" false = (x'', .ok s'') ∧
        s''.migrated = false ∧ s''.embeddings = 1 := by
  have hp : plainConfig.identifyProject samePaths "/" = .ok oneProject := identify_root (by decide +kernel)
  have hd : plainConfig.discover samePaths oneProject.root = .ok samePathsDiscovered := by decide +kernel
  have hends : (((freshIndexer (.memory {}) [.hashing 8]).ends? plainConfig 20 oneProject.id samePathsDiscovered).bind
      fun y => (y.1.ends? plainConfig 20 oneProject.id samePathsDiscovered).map fun z =>
        (y.2.errors, y.1.world.needsMigration oneProject.id, z.2.migrated, z.2.embeddings)) =
      some ([], false, false, 1) := by decide +kernel
  obtain ⟨⟨x', s'⟩, hfirst, hends⟩ := Option.bind_eq_some_iff.1 hends
  obtain ⟨⟨x'', s''⟩, hsecond, he⟩ := Option.map_eq_some_iff.1 hends
  simp only [Prod.mk.injEq] at he
  obtain ⟨herrors, hsame, hmigrated, hembeddings⟩ := he
  exact ⟨x', s', x'', s'', Indexer.indexProject_of_ends hp hd rfl hfirst, herrors,
    Indexer.indexProject_of_ends hp hd hsame hsecond, hmigrated, hembeddings⟩

/-- Where the first provider fails for once, the next one takes its place, and the second run migrates although the
first had no errors and the tree is the same. And where two files have the same path, the second run embeds one of
them. -/
theorem rerun_migrates :
    (∃ x' s' x'' s'',
      (freshIndexer (.memory {}) [failingOnce, .hashing 8]).indexProject plainConfig oneFile "/" false = (x', .ok s') ∧
        s'.errors = [] ∧ x'.indexProject plainConfig oneFile "/" false = (x'', .ok s'') ∧ s''.migrated = true) ∧
    ∃ x' s' x'' s'',
      (freshIndexer (.memory {}) [.hashing 8]).indexProject plainConfig samePaths "/" false = (x', .ok s') ∧
        s'.errors = [] ∧ x'.indexProject plainConfig samePaths "/" false = (x'', .ok s'') ∧
        s''.migrated = false ∧ s''.embeddings = 1 := by
  have hfollowed : ((freshIndexer (.memory {}) [failingOnce, .hashing 8]).followed?.map fun y =>
      (y.2.errors, y.1.world.needsMigration oneProject.id)) = some ([], true) := by decide +kernel
  obtain ⟨⟨x', s'⟩, hrun, he⟩ := Option.map_eq_some_iff.1 hfollowed
  obtain ⟨herrors, hmigrates⟩ := Prod.mk.inj he
  have hfirst := Indexer.indexProject_followed rfl hrun
  have hnamed := (Indexer.named_start (x := freshIndexer (.memory {}) [failingOnce, .hashing 8]) (c := plainConfig)
    oneScope rfl trivial rfl (Health.Registry.idle_empty (by decide))).indexed (index_oneFile_within false)
  rw [hfirst] at hnamed
  obtain ⟨x'', s'', hsecond, hm⟩ :=
    hnamed.outdated_run (index_oneFile_within false) identify_oneFile discover_oneFile (needsMigration_iff.1 hmigrates)
  exact ⟨⟨x', s', x'', s'', hfirst, herrors, hsecond, hm⟩, rerun_samePaths⟩

end CodeIndex
