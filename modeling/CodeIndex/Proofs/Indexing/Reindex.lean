import CodeIndex.Proofs.Indexing.Failure
import CodeIndex.Proofs.Indexing.InStep
import CodeIndex.Proofs.Indexing.Synced

/-!
One file indexed on its own, and a full run after it. With the hashing provider alone, whatever was done before, the
full run leaves the file as it is if it finds it, and forgets it if it does not. Files of either kind can be indexed on
their own: discovery passes over what is hidden or named by ignore files, and for a single file that is not asked.
-/

namespace CodeIndex

open CodeIndex.Embedding Files Lexical

variable {c : IndexerConfig} {σ : Store.Settings} {k : Contract c.pipeline σ} {S : Scope} {s s' : Store} {p : Prepared}
  {project : String} {log : List (Prepared × Outcome)}

/-- A record under identifiers of its own place. -/
structure Record.Placed (S : Scope) (r : Record) : Prop where
  key : (r.project, r.path) ∈ S.keys
  fileId : r.fileId = CodeIndex.fileId r.project r.path
  id : r.id = chunkId r.project r.path r.index
  index : r.index < max 1 S.size

theorem Scope.Admits.placed (hp : S.Admits c p) (hc : c.ParserFits) {chunk : Chunk} (hchunk : chunk ∈ p.pieces c.pipeline)
    (vector : Vec) (signature : Signature) : (recordOf p.file.project p.file chunk vector signature).Placed S :=
  ⟨hp.key, hp.id_eq, rfl, (hp.pieces hc chunk hchunk).1⟩

theorem Record.Placed.fileId_of_id {r q : Record} (hr : r.Placed S) (hq : q.Placed S) (h : r.id = q.id) :
    r.fileId = q.fileId := by
  have hkeys := (S.chunkId_inj hr.key hr.index hq.key hq.index (hr.id.symm.trans (h.trans hq.id))).1
  obtain ⟨hproject, hpath⟩ := Prod.mk.inj hkeys
  rw [hr.fileId, hq.fileId, hproject, hpath]

/-- Files that are embedded leave the records of all other files as they are. -/
theorem Embedding.Traced.rows_kept {id : String} (h : Traced k project s log s') (hs : s.Sane)
    (hrows : ∀ r ∈ s.rows, r.Placed S) (hc : c.ParserFits)
    (hlog : ∀ x ∈ log, S.Admits c x.1 ∧ x.1.file.project = project) (hid : ∀ x ∈ log, x.1.file.id ≠ id) :
    s'.rows.filter (·.fileId == id) = s.rows.filter (·.fileId == id) := by
  have hplaced : ∀ q, S.Admits c q ∧ q.file.project = project → ∀ embedded, k.Answers q embedded →
      ∀ r ∈ (Job.ofPrepared c.pipeline 0 q).records project embedded, r.Placed S ∧ r.fileId = q.file.id := by
    rintro q ⟨hq, rfl⟩ embedded ha r hr
    obtain ⟨chunk, hchunk, texts, e, -, vector, -, rfl⟩ := mem_jobRecords ha hr
    exact ⟨hq.placed hc hchunk vector e.signature, rfl⟩
  induction h with
  | start => rfl
  | widen h hw ih =>
    rw [(Store.widenings_spec hw ((h.keeps hs).sane hs)).1]
    exact ih hlog hid
  | @ended log s₁ s₂ q o h hend ih =>
    have hbefore := ih (fun x hx => hlog x (List.mem_append_left _ hx)) fun x hx => hid x (List.mem_append_left _ hx)
    have hrows₁ : ∀ r ∈ s₁.rows, r.Placed S := h.rows_all hs hrows fun x hx embedded ha r hr =>
      (hplaced x.1 (hlog x (List.mem_append_left _ hx)) embedded ha r hr).1
    obtain ⟨results, ha, hf⟩ := hend
    obtain ⟨-, ⟨rfl, -⟩ | ⟨-, embedded, result, rfl, hpersist, -⟩⟩ := finish_cases hf
    · exact hbefore
    · have hnew := hplaced q (hlog (q, o) (by simp)) embedded (List.forall₂_map_right_iff.1 ha)
      have hne : q.file.id ≠ id := hid (q, o) (by simp)
      have hothers := others_persist hpersist (fun r hr => (hnew r hr).2) fun x hx hxq r hr he =>
        hxq (((hrows₁ x hx).fileId_of_id (hnew r hr).1 he).trans (hnew r hr).2)
      -- the records in question are among those of other files
      have hamong : ∀ rows : List Record, (rows.filter (·.fileId != q.file.id)).filter (·.fileId == id) =
          rows.filter (·.fileId == id) := by
        intro rows
        rw [List.filter_filter]
        apply List.filter_congr
        intro r _
        by_cases hr : r.fileId = id <;> simp [hr, hne.symm]
      rw [← hbefore, ← hamong s₂.rows, ← hamong s₁.rows]
      exact congrArg _ hothers

namespace Indexer

variable {x x' : Indexer} {rel : String} {f : Discovered} {files : List Discovered} {t t' : Session}

/-- What an index holds for a path of a project. -/
structure Kept where
  entry : Option FileEntry
  records : List Record
  words : Option (List Entry)

def kept (x : Indexer) (project rel : String) : Kept where
  entry := x.world.store.getFile project rel
  records := x.world.store.rows.filter (·.fileId == fileId project rel)
  words := x.lexical.words? project rel

/-- Nothing of a path. -/
def Kept.nothing : Kept := ⟨none, [], none⟩

theorem Named.mem_paths_iff (h : x.Named k S) (hn : normalizePath rel = rel) :
    rel ∈ x.paths project ↔
      (x.kept project rel).entry.isSome = true ∨ (x.kept project rel).words.isSome = true := by
  rw [mem_paths]
  apply or_congr_left
  rw [Option.isSome_iff_exists]
  exact exists_congr fun m => (h.keyed.getFile_iff hn).symm

theorem pending?_recorded (h : x.isRecorded project f = true) : x.pending? c project false f = none := by
  unfold pending?
  split
  · rfl
  · rw [h]
    rfl

/-- Files that are taken in leave a path as it is unless one of them has it and is not recorded with its words. -/
theorem Named.kept_taken (h : x.Named k S) (hrows : ∀ r ∈ x.world.store.rows, r.Placed S) (hc : c.ParserFits)
    (hf : S.Takes project files) (hi : Intake k project false files x x' t t' log) (hkey : (project, rel) ∈ S.keys)
    (hn : normalizePath rel = rel) (hrecorded : ∀ f ∈ files, f.rel = rel →
      x.isRecorded project f = true ∧ (x.lexical.words? project rel).isSome = true) :
    x'.kept project rel = x.kept project rel := by
  have hlogged := h.logged hf hi
  have hlog : ∀ y ∈ log, y.1.file.id ≠ fileId project rel := by
    intro y hy he
    obtain ⟨g, hg, hp⟩ := List.mem_filterMap.1 (hi.mem y hy)
    obtain ⟨language, -, hy⟩ := pending?_spec hp
    rw [hy] at he
    have hrel := (Prod.mk.inj (S.fileId_inj (hf.key g hg) hkey he)).2
    rw [pending?_recorded (hrecorded g hg hrel).1] at hp
    cases hp
  have hentry : x'.world.store.getFile project rel = x.world.store.getFile project rel := by
    apply h.keyed.getFile_congr (h.taken hf hi).keyed hn
    intro m hproject hpath
    rw [(h.keyed.traced hi.traced hlogged).2.2 m]
    constructor
    · rintro (⟨y, hy, -, rfl⟩ | ⟨hm, -⟩)
      · exfalso
        apply hlog y hy
        rw [(hlogged.admitted y.1 (List.mem_map_of_mem hy)).id_eq, hproject, hpath]
      · exact hm
    · intro hm
      refine .inr ⟨hm, fun y hy _ he => hlog y hy ?_⟩
      rw [he, (h.keyed.keyed m hm).2, hproject, hpath]
  have hrecords := hi.traced.rows_kept h.keyed.sane hrows hc
    (fun y hy => ⟨hlogged.admitted y.1 (List.mem_map_of_mem hy), hlogged.project y.1 (List.mem_map_of_mem hy)⟩) hlog
  have hwords : x'.lexical.words? project rel = x.lexical.words? project rel := by
    by_cases hmem : ∃ f ∈ files, f.rel = rel
    · obtain ⟨f, hm, rfl⟩ := hmem
      obtain ⟨hr, hw⟩ := hrecorded f hm rfl
      exact hi.reads.kept f hm rfl hr hw
    · exact hi.reads.others project rel fun _ f hm he => absurd ⟨f, hm, he⟩ hmem
  rw [kept, hentry, hrecords, hwords, kept]

variable {rels : List String}

/-- Nothing is left of a path that is forgotten. -/
theorem Named.kept_forgotten (h : x.Named k S) (hn : normalizePath rel = rel) (hmem : rel ∈ rels) :
    (x.forgetAll project rels).kept project rel = .nothing := by
  have hentry : (x.forgetAll project rels).world.store.getFile project rel = none := by
    apply Option.eq_none_iff_forall_ne_some.2
    intro m hm
    obtain ⟨hm, hproject, hpath⟩ := ((h.forget project rels).keyed.getFile_iff hn).1 hm
    obtain ⟨hold, hne⟩ := (mem_entries_forgetAll h.keyed rels).1 hm
    apply hne rel hmem
    rw [(h.keyed.keyed m hold).2, hproject, hpath]
  have hrecords : (x.forgetAll project rels).world.store.rows.filter (·.fileId == fileId project rel) = [] := by
    rw [world_forgetAll]
    dsimp only
    rw [Store.rows_deleteFiles, List.filter_filter, List.filter_eq_nil_iff]
    intro r _ hr
    simp only [Bool.and_eq_true, beq_iff_eq, Bool.not_eq_true', List.contains_eq_mem, decide_eq_false_iff_not] at hr
    exact hr.2 (hr.1 ▸ List.mem_map_of_mem hmem)
  rw [kept, hentry, hrecords, words?_forgetAll, if_pos ⟨rfl, hmem⟩]
  rfl

/-- A path that is not forgotten stays as it is. -/
theorem Named.kept_unforgotten (h : x.Named k S) (hkey : (project, rel) ∈ S.keys) (hn : normalizePath rel = rel)
    (hrels : ∀ r ∈ rels, (project, r) ∈ S.keys) (hmem : rel ∉ rels) :
    (x.forgetAll project rels).kept project rel = x.kept project rel := by
  have hid : ∀ r ∈ rels, fileId project r ≠ fileId project rel := by
    intro r hr he
    rw [(Prod.mk.inj (S.fileId_inj (hrels r hr) hkey he)).2] at hr
    exact hmem hr
  have hentry : (x.forgetAll project rels).world.store.getFile project rel = x.world.store.getFile project rel := by
    apply h.keyed.getFile_congr (h.forget project rels).keyed hn
    intro m hproject hpath
    rw [mem_entries_forgetAll h.keyed]
    constructor
    · exact fun hm => hm.1
    · intro hm
      refine ⟨hm, fun r hr he => hid r hr ?_⟩
      rw [he, (h.keyed.keyed m hm).2, hproject, hpath]
  have hrecords : (x.forgetAll project rels).world.store.rows.filter (·.fileId == fileId project rel) =
      x.world.store.rows.filter (·.fileId == fileId project rel) := by
    rw [world_forgetAll]
    dsimp only
    rw [Store.rows_deleteFiles, List.filter_filter]
    apply List.filter_congr
    intro r _
    by_cases hr : r.fileId = fileId project rel
    · have hnot : fileId project rel ∉ rels.map (fileId project) := by
        rw [List.mem_map]
        rintro ⟨q, hq, he⟩
        exact hid q hq he
      simp [hr, hnot]
    · simp [hr]
  rw [kept, hentry, hrecords, words?_forgetAll, if_neg fun he => hmem he.2, kept]

theorem Named.kept_orphaned (h : x.Named k S) (hkey : (project, rel) ∈ S.keys) (hn : normalizePath rel = rel)
    (live : List String) :
    (x.removeOrphans project live).1.kept project rel =
      if rel ∈ x.paths project ∧ rel ∉ live then .nothing else x.kept project rel := by
  rw [removeOrphans_eq]
  split
  · rename_i horphan
    exact h.kept_forgotten hn (by simpa using horphan)
  · rename_i hlive
    exact h.kept_unforgotten hkey hn (fun r hr => h.paths (List.mem_of_mem_filter hr)) (by simpa using hlive)

/-- A full run that finds the model unchanged leaves a path as it is if it finds the file recorded with its words, and
leaves nothing of a path that it does not find, if anything was known of it. -/
theorem Named.kept_run (h : x.Named k S) (hrows : ∀ r ∈ x.world.store.rows, r.Placed S) (hc : c.ParserFits)
    {tree : FileTree} {project : Project} {s : Session} (hd : c.discover tree project.root = .ok files)
    (hf : S.Takes project.id files) (hm : x.world.needsMigration project.id = false)
    (hrun : x.indexRoot c tree project false = (x', .ok s)) (hkey : (project.id, rel) ∈ S.keys)
    (hn : normalizePath rel = rel) (hrecorded : ∀ f ∈ files, f.rel = rel →
      x.isRecorded project.id f = true ∧ (x.lexical.words? project.id rel).isSome = true) :
    x'.kept project.id rel =
      if rel ∈ x.paths project.id ∧ rel ∉ files.map (·.rel) then .nothing else x.kept project.id rel := by
  obtain ⟨y, t, log, hi, rfl, -⟩ := h.indexRoot_ok hd hf hrun
  rw [migrated_of_unchanged hm] at hi
  have hkept := h.kept_taken hrows hc hf hi hkey hn hrecorded
  have htaken := h.taken hf hi
  have hpaths : rel ∈ y.paths project.id ↔ rel ∈ x.paths project.id := by
    rw [htaken.mem_paths_iff hn, hkept, h.mem_paths_iff hn]
  simp only [htaken.kept_orphaned hkey hn, hpaths, hkept]

/-- The rules accept what discovery finds, and it is not too large. -/
theorem discover_accepts {tree : FileTree} {dir : String} (hd : c.discover tree dir = .ok files) (hf : f ∈ files) :
    ∃ rules, c.rules dir = .ok rules ∧ rules.accepts f.path = true ∧ f.content.size ≤ c.maxFileBytes := by
  unfold IndexerConfig.discover at hd
  cases hr : c.rules dir with
  | error e =>
    rw [hr] at hd
    cases hd
  | ok rules =>
    rw [hr] at hd
    dsimp only [bind, Except.bind, discover?] at hd
    split at hd
    · rename_i found hfound
      cases hd
      split at hfound
      · cases hfound
        obtain ⟨g, hg, rfl⟩ := List.mem_map.1 hf
        obtain ⟨-, haccepts⟩ := List.mem_filter.1 hg
        rw [Bool.and_eq_true, decide_eq_true_iff] at haccepts
        exact ⟨rules, rfl, haccepts⟩
      · cases hfound
    · cases hd

/-- A file that the rules accept is taken in when it is indexed on its own, and whether discovery finds it is not asked. -/
theorem reindexFile_eq {tree : FileTree} {project : Project} {file : String} {names : List String}
    {content : ByteArray} {stat : FileStat} {rules : Ignore.Rules} (x : Indexer) (force : Bool)
    (hm : x.world.needsMigration project.id = false) (hrel : relativePath project.root file = .ok rel)
    (hresolve : tree.resolve file = .ok (names, .file content stat)) (hrules : c.rules project.root = .ok rules)
    (haccepts : rules.accepts file = true) (hsize : content.size ≤ c.maxFileBytes) :
    x.reindexFile c tree project file force =
      let y := x.intake c project.id force (reading project.id) [⟨file, rel, content, stat⟩]
      (y.1, .ok y.2.complete) := by
  unfold reindexFile
  rw [hm, hrel]
  dsimp only
  rw [if_neg Bool.false_ne_true, hresolve]
  exact reindexContent_eq x force hrules haccepts hsize

/-- Indexing a file on its own tells of a migration if the model has changed. -/
theorem Named.unchanged_of_reindex (h : x.Named k S) {tree : FileTree} {project : Project} {file : String} {force : Bool}
    {s : Session} (hproject : c.identifyProject tree project.root = .ok project)
    (hd : c.discover tree project.root = .ok files) (hf : S.Takes project.id files)
    (hrun : x.reindexFile c tree project file force = (x', .ok s)) (hs : s.migrated = false) :
    x.world.needsMigration project.id = false := by
  by_contra hne
  rw [Bool.not_eq_false] at hne
  obtain ⟨y, t, hfull, ht⟩ := h.migrated_run hd hf force
  unfold reindexFile at hrun
  rw [if_pos hne, indexProject_eq hproject, hfull] at hrun
  cases hrun
  rw [ht, hne] at hs
  cases hs

/-- What is read at a path is the content of a file that is there. -/
theorem resolve_of_read {tree : FileTree} {file : String} {content : ByteArray} (h : tree.read file = .ok content) :
    ∃ names stat, tree.resolve file = .ok (names, .file content stat) := by
  unfold FileTree.read at h
  split at h
  · rename_i names t hresolve
    unfold FileTree.content at h
    split at h
    · cases h
    · split at h
      · cases h
      · cases h
        exact ⟨names, _, hresolve⟩
  · cases h

/-- A file that is indexed on its own without errors is recorded with its content and has its words. -/
theorem Named.recorded_reindexed (h : x.Named k S) {tree : FileTree} {project : Project} {force : Bool} {s : Session}
    (hm : x.world.needsMigration project.id = false) (hd : c.discover tree project.root = .ok files) (hmem : f ∈ files)
    (hfile : (Operation.reindex tree project f.path force).Within S c)
    (hrel : relativePath project.root f.path = .ok f.rel) (hread : tree.read f.path = .ok f.content)
    (hrun : x.reindexFile c tree project f.path force = (x', .ok s)) (hok : s.errors = []) :
    x'.isRecorded project.id f = true ∧ (x'.lexical.words? project.id f.rel).isSome = true := by
  obtain ⟨rules, hrules, haccepts, hsize⟩ := discover_accepts hd hmem
  obtain ⟨names, stat, hresolve⟩ := resolve_of_read hread
  obtain ⟨-, -, hfile⟩ := hfile
  have htakes := (hfile f.rel hrel).2.2 names f.content stat hresolve
  rw [reindexFile_eq x force hm hrel hresolve hrules haccepts hsize] at hrun
  cases hrun
  obtain ⟨log, hi⟩ := intake_spec (s := reading project.id) h.floor h.settings h.keyed.sane rfl htakes.nodup
    project.id force
  rw [errors_complete] at hok
  obtain ⟨hlanguage, hall⟩ := hi.errors hok
  obtain ⟨language, hl⟩ := hlanguage _ List.mem_cons_self
  have hrecorded := h.recorded_taken htakes hi List.mem_cons_self (fun y hy _ => hall y hy) hl
  exact hrecorded

/-- An index in order, whose records of a project carry the signature of the hashing provider, which is the only one. -/
structure Uniform (c : IndexerConfig) (dims : Nat) (σ : Store.Settings) (S : Scope) (project : String) (x : Indexer) :
    Prop extends x.Named (Contract.hashing c.pipeline dims σ) S where
  placed : ∀ r ∈ x.world.store.rows, r.Placed S
  signature : ∀ r ∈ x.world.store.rows, r.project = project → r.signature = (Provider.hashing dims).signature

variable {dims : Nat}

theorem uniform_iff (h : x.Named (Contract.hashing c.pipeline dims σ) S) (hrows : ∀ r ∈ x.world.store.rows, r.Placed S) :
    x.Uniform c dims σ S project ↔ x.world.needsMigration project = false := by
  rw [← Bool.not_eq_true, needsMigration_iff, outdated_hashing h.floor]
  constructor
  · rintro hu ⟨r, hr, hproject, hne⟩
    exact hne (hu.signature r hr hproject)
  · intro hnone
    refine ⟨h, hrows, fun r hr hproject => ?_⟩
    by_contra hne
    exact hnone ⟨r, hr, hproject, hne⟩

theorem Uniform.change (hc : c.ParserFits) (hx : Change c S x x') (h : x.Uniform c dims σ S project) :
    x'.Uniform c dims σ S project := by
  have hrows : ∀ r ∈ x'.world.store.rows,
      r.Placed S ∧ (r.project = project → r.signature = (Provider.hashing dims).signature) := by
    refine rows_change (P := fun r => r.Placed S ∧ (r.project = project → _)) hx h.toNamed ?_ fun r hr =>
      ⟨h.placed r hr, h.signature r hr⟩
    intro p hp chunk hchunk texts e he vector hv
    exact ⟨hp.placed hc hchunk vector e.signature, fun _ => signature_recordOf he hv p.file.project p.file chunk⟩
  exact ⟨h.toNamed.change hx, fun r hr => (hrows r hr).1, fun r hr => (hrows r hr).2⟩

end Indexer

/-- The records that processes leave in a store are under identifiers of their own places. -/
theorem Store.served_placed {processes : List Process} (hps : ∀ p ∈ processes, p.Within S ∧ p.config.ParserFits)
    (hentries : s.entries = []) (hrows : s.rows = []) (hsane : s.Sane) :
    (s.served processes).Holding S (Record.Placed S) := by
  refine Store.served_holding (fun p hp => (hps p hp).1) (fun _ h => h.key) ?_
    (Store.holding_empty hentries hrows hsane)
  intro p hp q hq chunk hchunk vector signature
  exact hq.placed (hps p hp).2 hchunk vector signature

theorem Process.reach_placed {p : Process} {k : Contract p.config.pipeline s.settings} (hp : p.Within S)
    (hc : p.config.ParserFits) (hk : k.floor p.providers { config := p.health })
    (h : s.Holding S (Record.Placed S)) :
    (p.reach s).Named k S ∧ ∀ r ∈ (p.reach s).world.store.rows, r.Placed S :=
  p.reach_holding hp hk (fun _ h => h.key) (fun _ hq _ hchunk vector signature => hq.placed hc hchunk vector signature) h

/-- A file was indexed on its own with the hashing provider alone, without errors and without a migration, whatever
was done before. If the next full run finds the file, it neither embeds it again nor changes what is kept of it. A path
that it does not find it forgets. -/
theorem reindexed_kept (S : Scope) (s : Store) (earlier : List Process) (p : Process) (dims : Nat) (tree : FileTree)
    (project : Project) (file rel : String) (files : List Discovered) (force : Bool) (x₁ : Indexer) (s₁ : Session)
    (hentries : s.entries = []) (hrows : s.rows = []) (hsane : s.Sane)
    (hearlier : ∀ q ∈ earlier, q.Within S ∧ q.config.ParserFits) (hp : p.Within S) (hc : p.config.ParserFits)
    (hproviders : p.providers = [.hashing dims])
    (hproject : p.config.identifyProject tree project.root = .ok project)
    (hd : p.config.discover tree project.root = .ok files)
    (hfile : (Operation.reindex tree project file force).Within S p.config)
    (hrel : Indexer.relativePath project.root file = .ok rel)
    (hrun : (p.reach (s.served earlier)).reindexFile p.config tree project file force = (x₁, .ok s₁))
    (hmigrated : s₁.migrated = false) (hok : s₁.errors = []) :
    ∃ x₂ s₂, x₁.indexProject p.config tree project.root false = (x₂, .ok s₂) ∧ s₂.migrated = false ∧
      (∀ f ∈ files, f.path = file → f.rel = rel → tree.read file = .ok f.content →
        x₁.pending? p.config project.id false f = none ∧ x₂.kept project.id rel = x₁.kept project.id rel) ∧
      (rel ∉ files.map (·.rel) → x₂.kept project.id rel =
        if rel ∈ x₁.paths project.id then .nothing else x₁.kept project.id rel) := by
  obtain ⟨hnamed, hplaced⟩ := p.reach_placed (k := .hashing p.config.pipeline dims (s.served earlier).settings) hp hc
    ⟨⟨_, hproviders, 0, 0, rfl⟩, ⟨rfl, rfl⟩⟩ (Store.served_placed hearlier hentries hrows hsane)
  generalize p.reach (s.served earlier) = x at *
  have htakes := Indexer.takes_of_covers hfile.1 hd
  have hm := hnamed.unchanged_of_reindex hproject hd htakes hrun hmigrated
  have hbefore := (Indexer.uniform_iff hnamed hplaced).2 hm
  have hafter : (x.apply p.config (.reindex tree project file force)).Uniform p.config dims _ S project.id :=
    Indexer.apply_preserves (fun _ _ => Indexer.Uniform.change hc) hfile hbefore
  change (x.reindexFile p.config tree project file force).1.Uniform p.config dims _ S project.id at hafter
  rw [hrun] at hafter
  obtain ⟨hkey, hn, -⟩ := hfile.2.2 rel hrel
  have hm₁ := (Indexer.uniform_iff hafter.toNamed hafter.placed).1 hafter
  obtain ⟨x₂, s₂, hfull, hunmigrated⟩ := hafter.toNamed.migrated_run hd htakes false
  refine ⟨x₂, s₂, (Indexer.indexProject_eq hproject x₁ false).trans hfull, hunmigrated.trans hm₁, ?_, ?_⟩
  · rintro f hf rfl rfl hread
    obtain ⟨hrecorded, hwords⟩ := hnamed.recorded_reindexed hm hd hf hfile hrel hread hrun hok
    refine ⟨Indexer.pending?_recorded hrecorded, ?_⟩
    rw [hafter.toNamed.kept_run hafter.placed hc hd htakes hm₁ hfull hkey hn, if_neg]
    · exact fun hnot => hnot.2 (List.mem_map_of_mem hf)
    · intro g hg he
      obtain rfl : g = f := List.inj_on_of_nodup_map htakes.nodup hg hf he
      exact ⟨hrecorded, hwords⟩
  · intro hnot
    rw [hafter.toNamed.kept_run hafter.placed hc hd htakes hm₁ hfull hkey hn]
    · simp [hnot]
    · exact fun g hg he => absurd (List.mem_map.2 ⟨g, hg, he⟩) hnot

theorem reindexed_kept_oneFile :
    let x := ({ indexingOne [.hashing 8] with ops := [] } : Process).reach ((Store.memory {}).served [])
    ∃ x₁ s₁ x₂ s₂, x.reindexFile plainConfig oneFile oneProject "/a.md" false = (x₁, .ok s₁) ∧
      s₁.embeddings = 1 ∧ x₁.indexProject plainConfig oneFile "/" false = (x₂, .ok s₂) ∧
      x₂.kept oneProject.id "a.md" = x₁.kept oneProject.id "a.md" := by
  intro x
  have htaken : (x.taken? plainConfig 10 oneProject.id false (Indexer.reading oneProject.id) [oneDiscovered]).map
      (fun y => (y.2.complete.errors, y.2.complete.migrated, y.2.complete.embeddings)) = some ([], false, 1) := by
    decide +kernel
  obtain ⟨y, hy, he⟩ := Option.map_eq_some_iff.1 htaken
  simp only [Prod.mk.injEq] at he
  obtain ⟨hok, hmigrated, hembeddings⟩ := he
  have hrel : Indexer.relativePath oneProject.root "/a.md" = .ok "a.md" := by decide +kernel
  have hread : oneFile.read "/a.md" = .ok "a".toUTF8 := rfl
  have hresolve : oneFile.resolve "/a.md" = .ok (["a.md"], .file "a".toUTF8) := rfl
  have hreindex : x.reindexFile plainConfig oneFile oneProject "/a.md" false = (y.1, .ok y.2.complete) := by
    obtain ⟨rules, hrules, haccepts, hsize⟩ := Indexer.discover_accepts discover_oneFile List.mem_cons_self
    rw [Indexer.reindexFile_eq x false rfl hrel hresolve hrules haccepts hsize]
    dsimp only
    rw [show (⟨"/a.md", "a.md", "a".toUTF8, {}⟩ : Discovered) = oneDiscovered from rfl, Indexer.intake_of_taken hy]
  have hcovers := index_oneFile_within false oneProject identify_oneFile
  have hfile : (Operation.reindex oneFile oneProject "/a.md" false).Within oneScope plainConfig := by
    refine ⟨hcovers, fun other hother => index_oneFile_within false other hother, fun rel h => ?_⟩
    cases hrel.symm.trans h
    refine ⟨rfl, by decide, fun names content stat h => ?_⟩
    cases hresolve.symm.trans h
    exact Indexer.takes_of_relativePath hrel rfl (by decide) rfl rfl
  obtain ⟨x₂, s₂, hfull, -, hkept, -⟩ := reindexed_kept oneScope (.memory {}) []
    { indexingOne [.hashing 8] with ops := [] } 8 oneFile oneProject "/a.md" "a.md" [oneDiscovered] false y.1
    y.2.complete rfl rfl trivial nofun ⟨by decide, nofun⟩ nofun rfl identify_oneFile discover_oneFile hfile hrel
    hreindex hmigrated hok
  exact ⟨y.1, _, x₂, s₂, hreindex, hembeddings, hfull, (hkept oneDiscovered List.mem_cons_self rfl rfl hread).2⟩

/-- A tree of one file, which is hidden. -/
def hiddenFile : FileTree := .dir [(".a.md", .file "a".toUTF8)]

/-- A hidden file can be indexed on its own, and the next full run removes it. -/
theorem reindexed_removed :
    ∃ x₁ s₁ x₂ s₂,
      (freshIndexer (.memory {}) [.hashing 8]).reindexFile plainConfig hiddenFile oneProject "/.a.md" false =
        (x₁, .ok s₁) ∧
      s₁.errors = [] ∧ s₁.migrated = false ∧ s₁.embeddings = 1 ∧
      x₁.indexProject plainConfig hiddenFile "/" false = (x₂, .ok s₂) ∧ s₂.filesFound = 0 ∧ s₂.filesRemoved = 1 := by
  have htaken : ((freshIndexer (.memory {}) [.hashing 8]).taken? plainConfig 10 oneProject.id false
      (Indexer.reading oneProject.id) [⟨"/.a.md", ".a.md", "a".toUTF8, {}⟩]).map (fun y =>
        (y.2.complete.errors, y.2.complete.migrated, y.2.complete.embeddings, y.1.world.needsMigration oneProject.id,
          (y.1.removeOrphans oneProject.id []).2)) = some ([], false, 1, false, 1) := by decide +kernel
  obtain ⟨y, hy, he⟩ := Option.map_eq_some_iff.1 htaken
  simp only [Prod.mk.injEq] at he
  obtain ⟨hok, hmigrated, hembeddings, hm, hremoved⟩ := he
  have hrel : Indexer.relativePath oneProject.root "/.a.md" = .ok ".a.md" := by decide +kernel
  have hresolve : hiddenFile.resolve "/.a.md" = .ok ([".a.md"], .file "a".toUTF8) := rfl
  have hrules : plainConfig.rules oneProject.root = .ok ⟨oneProject.root, []⟩ := rfl
  have hreindex : (freshIndexer (.memory {}) [.hashing 8]).reindexFile plainConfig hiddenFile oneProject "/.a.md" false =
      (y.1, .ok y.2.complete) := by
    rw [Indexer.reindexFile_eq _ false rfl hrel hresolve hrules (by decide +kernel) (by decide), Indexer.intake_of_taken hy]
  have hidentify : plainConfig.identifyProject hiddenFile "/" = .ok oneProject := identify_root (by decide +kernel)
  have hd : plainConfig.discover hiddenFile oneProject.root = .ok [] := by decide +kernel
  have hfull := Indexer.indexProject_eq hidentify y.1 false
  rw [Indexer.indexRoot_eq y.1 false hd, Indexer.migrated_of_unchanged hm] at hfull
  exact ⟨y.1, _, _, _, hreindex, hok, hmigrated, hembeddings, hfull, rfl, hremoved⟩

end CodeIndex
