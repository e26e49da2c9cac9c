import CodeIndex.Proofs.Indexing.History

/-!
An index that has what a tree has. After a full run in which no file failed, each file that was found is recorded with
its content and has its words, and nothing is kept for any other path of the project.
-/

namespace CodeIndex

open CodeIndex.Embedding Files Lexical Relation

variable {c : IndexerConfig} {σ : Store.Settings} {k : Contract c.pipeline σ} {S : Scope} {s s' : Store}
  {m : FileEntry} {project : String}

namespace Store

theorem Keyed.filtered (h : s.Keyed S) (hs : s'.Sane) (p : FileEntry → Bool) (he : s'.entries = s.entries.filter p) :
    s'.Keyed S := by
  refine ⟨hs, ?_, fun m hm => ?_⟩
  · rw [he]
    exact h.ids.sublist (List.filter_sublist.map _)
  · rw [he] at hm
    exact h.keyed m (List.mem_of_mem_filter hm)

theorem Keyed.deleteFiles (h : s.Keyed S) (project : String) (rels : List String) :
    (rels.foldl (fun s rel => s.deleteFile (fileId project rel)) s).Keyed S ∧
      s.Keeps (rels.foldl (fun s rel => s.deleteFile (fileId project rel)) s) ∧
      ∀ m, m ∈ (rels.foldl (fun s rel => s.deleteFile (fileId project rel)) s).entries ↔
        m ∈ s.entries ∧ ∀ rel ∈ rels, fileId project rel ≠ m.id := by
  induction rels generalizing s with
  | nil => exact ⟨h, .refl s, fun m => by simp⟩
  | cons rel rels ih =>
    have hkeeps := keeps_deleteFile s (fileId project rel)
    obtain ⟨hkeyed, hkept, hmem⟩ := ih (h.filtered (hkeeps.sane h.sane) _ (entries_deleteFile s (fileId project rel)))
    refine ⟨hkeyed, hkeeps.trans hkept, fun m => (hmem m).trans ?_⟩
    rw [entries_deleteFile, List.mem_filter, bne_iff_ne, List.forall_mem_cons, and_assoc, ne_comm]

/-- An entry is found under its name. -/
theorem Keyed.getFile (h : s.Keyed S) (hm : m ∈ s.entries) (hp : normalizePath m.path = m.path) :
    s.getFile m.project m.path = some m := by
  rw [getFile_eq, hp]
  cases hf : s.entries.find? fun f => f.project == m.project && f.path == m.path with
  | none => exact absurd (List.find?_eq_none.1 hf m hm) (by simp)
  | some g =>
    have hg := List.mem_of_find?_eq_some hf
    have hsame := List.find?_some hf
    rw [Bool.and_eq_true, beq_iff_eq, beq_iff_eq] at hsame
    rw [h.entry_eq hg hm hsame.1 hsame.2]

theorem mem_of_getFile {path : String} (h : s.getFile project path = some m) :
    m ∈ s.entries ∧ m.project = project ∧ m.path = normalizePath path := by
  rw [getFile_eq] at h
  have hsame := List.find?_some h
  rw [Bool.and_eq_true, beq_iff_eq, beq_iff_eq] at hsame
  exact ⟨List.mem_of_find?_eq_some h, hsame⟩

theorem Keyed.getFile_iff {path : String} (h : s.Keyed S) (hn : normalizePath path = path) :
    s.getFile project path = some m ↔ m ∈ s.entries ∧ m.project = project ∧ m.path = path := by
  constructor
  · intro hm
    obtain ⟨hm, hproject, hpath⟩ := mem_of_getFile hm
    exact ⟨hm, hproject, hpath.trans hn⟩
  · rintro ⟨hm, rfl, rfl⟩
    exact h.getFile hm hn

/-- The entry of a path is the same in two stores if each holds it just when the other does. -/
theorem Keyed.getFile_congr {path : String} (h : s.Keyed S) (h' : s'.Keyed S) (hn : normalizePath path = path)
    (hm : ∀ m, m.project = project → m.path = path → (m ∈ s'.entries ↔ m ∈ s.entries)) :
    s'.getFile project path = s.getFile project path := by
  apply Option.ext
  intro m
  rw [h'.getFile_iff hn, h.getFile_iff hn]
  constructor
  · rintro ⟨hmem, hproject, hpath⟩
    exact ⟨(hm m hproject hpath).1 hmem, hproject, hpath⟩
  · rintro ⟨hmem, hproject, hpath⟩
    exact ⟨(hm m hproject hpath).2 hmem, hproject, hpath⟩

end Store

namespace Indexer

variable {x x' w : Indexer} {force : Bool} {f : Discovered} {files : List Discovered}

theorem isRecorded_iff (h : x.world.store.Keyed S) (hn : normalizePath f.rel = f.rel) :
    x.isRecorded project f = true ↔
      ∃ m ∈ x.world.store.entries, m.project = project ∧ m.path = f.rel ∧ m.hash = fingerprint f.content := by
  unfold isRecorded recorded?
  rw [beq_iff_eq, Option.map_eq_some_iff]
  constructor
  · rintro ⟨m, hm, he⟩
    obtain ⟨hmem, hproject, hpath⟩ := (h.getFile_iff hn).1 hm
    exact ⟨m, hmem, hproject, hpath, he⟩
  · rintro ⟨m, hmem, hproject, hpath, he⟩
    exact ⟨m, (h.getFile_iff hn).2 ⟨hmem, hproject, hpath⟩, he⟩

theorem mem_paths {path : String} : path ∈ x.paths project ↔
    (∃ m ∈ x.world.store.entries, m.project = project ∧ m.path = path) ∨
      (x.lexical.words? project path).isSome = true := by
  unfold paths
  rw [List.mem_eraseDups, List.mem_append, Index.mem_files, Store.listFiles_eq, List.mem_map]
  refine or_congr_left ⟨?_, ?_⟩
  · rintro ⟨m, hm, rfl⟩
    obtain ⟨hm, hp⟩ := List.mem_filter.1 ((List.mergeSort_perm ..).mem_iff.1 hm)
    exact ⟨m, hm, beq_iff_eq.1 hp, rfl⟩
  · rintro ⟨m, hm, hp, rfl⟩
    exact ⟨m, (List.mergeSort_perm ..).mem_iff.2 (List.mem_filter.2 ⟨hm, beq_iff_eq.2 hp⟩), rfl⟩

theorem words?_forgetAll (x : Indexer) (project q path : String) (rels : List String) :
    (x.forgetAll project rels).lexical.words? q path =
      if q = project ∧ path ∈ rels then none else x.lexical.words? q path := by
  unfold forgetAll
  induction rels generalizing x with
  | nil => simp
  | cons rel rels ih =>
    rw [List.foldl_cons, ih]
    have hstep : (x.forget project rel).1.lexical.words? q path =
        if q = project ∧ path = rel then none else x.lexical.words? q path := Index.words?_removeFile ..
    rw [hstep]
    by_cases hq : q = project <;> by_cases hr : path = rel <;> by_cases hm : path ∈ rels <;> simp [hq, hr, hm]

theorem ordered_forgetAll (h : x.lexical.Ordered) (project : String) (rels : List String) :
    (x.forgetAll project rels).lexical.Ordered := by
  unfold forgetAll
  induction rels generalizing x with
  | nil => exact h
  | cons rel rels ih => exact ih (h.removeFile project rel)

theorem mem_entries_forgetAll (h : x.world.store.Keyed S) (rels : List String) :
    m ∈ (x.forgetAll project rels).world.store.entries ↔
      m ∈ x.world.store.entries ∧ ∀ rel ∈ rels, fileId project rel ≠ m.id := by
  rw [world_forgetAll]
  exact (h.deleteFiles project rels).2.2 m

/-- Providers at work for a contract, none of them called, and entries and words of names in the scope. -/
structure Named (k : Contract c.pipeline σ) (S : Scope) (x : Indexer) : Prop where
  floor : k.floor x.world.providers x.world.health
  idle : x.world.health.Idle
  settings : x.world.store.settings = σ
  keyed : x.world.store.Keyed S
  words : ∀ project path, (x.lexical.words? project path).isSome = true → (project, path) ∈ S.keys

theorem Named.paths (h : x.Named k S) {path : String} (hp : path ∈ x.paths project) : (project, path) ∈ S.keys := by
  rcases mem_paths.1 hp with ⟨m, hm, rfl, rfl⟩ | hw
  · exact (h.keyed.keyed m hm).1
  · exact h.words project path hw

theorem Named.forget (h : x.Named k S) (project : String) (rels : List String) :
    (x.forgetAll project rels).Named k S := by
  obtain ⟨hkeyed, hkeeps, -⟩ := h.keyed.deleteFiles project rels
  refine ⟨?_, ?_, ?_, ?_, fun q path hw => h.words q path ?_⟩
  · rw [world_forgetAll]
    exact h.floor
  · rw [world_forgetAll]
    exact h.idle
  · rw [world_forgetAll]
    exact hkeeps.settings.trans h.settings
  · rw [world_forgetAll]
    exact hkeyed
  · rw [words?_forgetAll] at hw
    split at hw
    · cases hw
    · exact hw

theorem Named.clear (h : x.Named k S) (project : String) : (x.clear project).Named k S := by
  have hkeeps := Store.keeps_clear x.world.store project
  exact ⟨h.floor, h.idle, hkeeps.settings.trans h.settings,
    h.keyed.filtered (hkeeps.sane h.keyed.sane) _ (Store.entries_clear x.world.store project), h.words⟩

variable {t t' : Session} {log : List (Prepared × Outcome)}

theorem Named.logged (h : x.Named k S) (hf : S.Takes project files)
    (hi : Intake k project force files x x' t t' log) : S.Logged c project (log.map (·.1)) :=
  (logged_pending hf).perm (hi.idle h.idle).2

theorem Named.taken (h : x.Named k S) (hf : S.Takes project files)
    (hi : Intake k project force files x x' t t' log) : x'.Named k S := by
  refine ⟨hi.floor, (hi.idle h.idle).1, hi.keeps.settings.trans h.settings,
    (h.keyed.traced hi.traced (h.logged hf hi)).1, fun q path hw => ?_⟩
  by_cases hq : q = project ∧ ∃ f ∈ files, f.rel = path
  · obtain ⟨rfl, f, hm, rfl⟩ := hq
    exact hf.key f hm
  · rw [hi.reads.others q path fun he f hm hp => absurd ⟨he, f, hm, hp⟩ hq] at hw
    exact h.words q path hw

theorem Named.change (hx : Change c S x x') (h : x.Named k S) : x'.Named k S := by
  cases hx with
  | wait ms => exact ⟨h.floor, h.idle, h.settings, h.keyed, h.words⟩
  | clear project => exact h.clear project
  | intake project force s files hf hs =>
    obtain ⟨log, hi⟩ := intake_spec (c := c) h.floor h.settings h.keyed.sane hs hf.nodup project force
    exact h.taken hf hi
  | forget project rels => exact h.forget project rels

/-- What the entries are once files were taken in. -/
theorem Named.mem_taken (h : x.Named k S) (hf : S.Takes project files)
    (hi : Intake k project force files x x' t t' log) (hok : ∀ y ∈ log, y.2.error = none) :
    m ∈ x'.world.store.entries ↔ (∃ f ∈ files, ∃ p, x.pending? c project force f = some p ∧ p.file = m) ∨
      (m ∈ x.world.store.entries ∧
        ∀ f ∈ files, ∀ p, x.pending? c project force f = some p → p.file.id ≠ m.id) := by
  have hperm := (hi.idle h.idle).2
  have hlog : ∀ q : Prepared → Prop, (∃ y ∈ log, y.2.error = none ∧ q y.1) ↔
      ∃ f ∈ files, ∃ p, x.pending? c project force f = some p ∧ q p := by
    intro q
    constructor
    · rintro ⟨y, hy, -, hq⟩
      obtain ⟨f, hm, hp⟩ := List.mem_filterMap.1 (hi.mem y hy)
      exact ⟨f, hm, y.1, hp, hq⟩
    · rintro ⟨f, hm, p, hp, hq⟩
      obtain ⟨y, hy, rfl⟩ := List.mem_map.1 (hperm.mem_iff.2 (List.mem_filterMap.2 ⟨f, hm, hp⟩))
      exact ⟨y, hy, hok y hy, hq⟩
  rw [(h.keyed.traced hi.traced (h.logged hf hi)).2.2 m]
  refine or_congr (hlog fun p => p.file = m) (and_congr_right fun _ => ?_)
  have hnone := not_congr (hlog fun p => p.file.id = m.id)
  push Not at hnone
  exact hnone

/-- A file that was taken in and did not fail is recorded with its content, and its words are there. -/
theorem Named.recorded_taken (h : x.Named k S) (hf : S.Takes project files)
    (hi : Intake k project force files x x' t t' log) (hm : f ∈ files)
    (hok : ∀ y ∈ log, y.1.file.path = f.rel → y.2.error = none) {language : Language}
    (hl : f.language = .ok language) :
    x'.isRecorded project f = true ∧ (x'.lexical.words? project f.rel).isSome = true := by
  have hnamed := h.taken hf hi
  have hentries := (h.keyed.traced hi.traced (h.logged hf hi)).2.2
  constructor
  · rw [isRecorded_iff hnamed.keyed (hf.normal f hm)]
    cases hp : x.pending? c project force f with
    | some p =>
      obtain ⟨y, hy, hyp⟩ := List.mem_map.1 ((hi.idle h.idle).2.mem_iff.2 (List.mem_filterMap.2 ⟨f, hm, hp⟩))
      obtain ⟨language, -, rfl⟩ := pending?_spec hp
      exact ⟨_, (hentries _).2 (.inl ⟨y, hy, hok y hy (by rw [hyp]; rfl), congrArg Prepared.file hyp⟩), rfl, rfl, rfl⟩
    | none =>
      obtain ⟨m, hmem, hproject, hpath, hhash⟩ :=
        (isRecorded_iff h.keyed (hf.normal f hm)).1 (recorded_of_pending? hl hp).2
      refine ⟨m, (hentries m).2 (.inr ⟨hmem, fun y hy _ he => ?_⟩), hproject, hpath, hhash⟩
      -- another file would have to go by the same name
      obtain ⟨g, hg, hpg⟩ := List.mem_filterMap.1 (hi.mem y hy)
      obtain ⟨language, -, hy⟩ := pending?_spec hpg
      rw [hy] at he
      obtain ⟨hkey, hid⟩ := h.keyed.keyed m hmem
      have hsame := S.fileId_inj (hf.key g hg) hkey (he.trans hid)
      have hgf : g = f := List.inj_on_of_nodup_map hf.nodup hg hm ((Prod.mk.inj hsame).2.trans hpath)
      rw [hgf, hp] at hpg
      cases hpg
  · rcases hi.reads.words f hm language hl with hw | ⟨-, -, hs, hw⟩
    · rw [hw]
      rfl
    · rw [hw]
      exact hs

/-- Forgetting all other paths leaves these as they are. -/
theorem Named.orphaned (h : x.Named k S) (project : String) (files : List Discovered) :
    (∀ m, m ∈ (x.removeOrphans project (files.map (·.rel))).1.world.store.entries ↔
      m ∈ x.world.store.entries ∧ (m.project = project → m.path ∈ files.map (·.rel))) ∧
    ∀ q path, (x.removeOrphans project (files.map (·.rel))).1.lexical.words? q path =
      if q = project ∧ path ∉ files.map (·.rel) then none else x.lexical.words? q path := by
  have horphan : ∀ path, path ∈ (x.paths project).filter (fun rel => !(files.map (·.rel)).contains rel) ↔
      path ∈ x.paths project ∧ path ∉ files.map (·.rel) := by
    intro path
    rw [List.mem_filter, Bool.not_eq_true', ← Bool.not_eq_true, List.contains_iff_mem]
  rw [removeOrphans_eq]
  refine ⟨fun m => ?_, fun q path => ?_⟩
  · rw [mem_entries_forgetAll h.keyed]
    refine and_congr_right fun hm => ⟨fun hall hp => ?_, fun hlive rel hr he => ?_⟩
    · by_contra hnot
      refine hall m.path ((horphan m.path).2 ⟨mem_paths.2 (.inl ⟨m, hm, hp, rfl⟩), hnot⟩) ?_
      rw [(h.keyed.keyed m hm).2, hp]
    · obtain ⟨hpath, hnot⟩ := (horphan rel).1 hr
      obtain ⟨hkey, hid⟩ := h.keyed.keyed m hm
      have hsame := Prod.mk.inj (S.fileId_inj (h.paths hpath) hkey (he.trans hid))
      exact hnot (hsame.2 ▸ hlive hsame.1.symm)
  · rw [words?_forgetAll]
    by_cases hq : q = project
    · by_cases hl : path ∈ files.map (·.rel)
      · rw [if_neg fun hh => ((horphan path).1 hh.2).2 hl, if_neg fun hh => hh.2 hl]
      · refine Eq.trans ?_ (if_pos ⟨hq, hl⟩).symm
        rw [ite_eq_left_iff]
        intro hnot
        rw [← Option.not_isSome_iff_eq_none]
        exact fun hs => hnot ⟨hq, (horphan path).2 ⟨mem_paths.2 (.inr (hq ▸ hs)), hl⟩⟩
    · rw [if_neg fun hh => hq hh.1, if_neg fun hh => hq hh.1]

/-- Nothing is left for any other path. -/
theorem Named.paths_orphaned (h : x.Named k S) (project : String) (files : List Discovered) :
    ∀ path ∈ (x.removeOrphans project (files.map (·.rel))).1.paths project, path ∈ files.map (·.rel) := by
  obtain ⟨hentries, hwords⟩ := h.orphaned project files
  intro path hp
  rcases mem_paths.1 hp with ⟨m, hm, hproject, rfl⟩ | hw
  · exact ((hentries m).1 hm).2 hproject
  · by_contra hnot
    rw [hwords, if_pos ⟨rfl, hnot⟩] at hw
    cases hw

/-- What is recorded for a file stays. -/
theorem Named.recorded_orphaned (h : x.Named k S) (hf : S.Takes project files) (hm : f ∈ files)
    (hr : x.isRecorded project f = true ∧ (x.lexical.words? project f.rel).isSome = true) :
    let y := (x.removeOrphans project (files.map (·.rel))).1
    y.isRecorded project f = true ∧ (y.lexical.words? project f.rel).isSome = true := by
  obtain ⟨hentries, hwords⟩ := h.orphaned project files
  have hlive : (x.removeOrphans project (files.map (·.rel))).1.Named k S := by
    rw [removeOrphans_eq]
    exact h.forget project _
  have hrel : f.rel ∈ files.map (·.rel) := List.mem_map_of_mem hm
  constructor
  · rw [isRecorded_iff hlive.keyed (hf.normal f hm)]
    obtain ⟨m, hmem, hproject, hpath, hhash⟩ := (isRecorded_iff h.keyed (hf.normal f hm)).1 hr.1
    exact ⟨m, (hentries m).2 ⟨hmem, fun _ => hpath ▸ hrel⟩, hproject, hpath, hhash⟩
  · rw [hwords, if_neg fun hh => hh.2 hrel]
    exact hr.2

/-- All files are recorded and have their words, and no other path of the project is known. -/
structure Settled (project : String) (files : List Discovered) (x : Indexer) : Prop where
  recorded : ∀ f ∈ files, ∀ language, f.language = .ok language →
    x.isRecorded project f = true ∧ (x.lexical.words? project f.rel).isSome = true
  paths : ∀ path ∈ x.paths project, path ∈ files.map (·.rel)

theorem Named.settled (h : x.Named k S) (hf : S.Takes project files)
    (hi : Intake k project force files x x' t t' log) (hok : ∀ y ∈ log, y.2.error = none) :
    (x'.removeOrphans project (files.map (·.rel))).1.Settled project files := by
  have hnamed := h.taken hf hi
  refine ⟨fun f hm language hl => ?_, hnamed.paths_orphaned project files⟩
  exact hnamed.recorded_orphaned hf hm (h.recorded_taken hf hi hm (fun y hy _ => hok y hy) hl)

end Indexer

end CodeIndex
