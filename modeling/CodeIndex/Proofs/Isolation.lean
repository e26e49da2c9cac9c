import CodeIndex.Proofs.Indexing.Words
import CodeIndex.Proofs.Store.Identifiers

/-!
Projects side by side. Stores delete by the identifier of a file and replace by that of an entry or record, and ask for
no project. Still what is done for one project does not show in another: identifiers are made of the project's name,
which ends at the first colon, so two projects never share one. Words are kept on a shelf for each project.

Two questions can be answered in more than one way: which signature most records carry, where two are tied, is decided
by the order in which a store in memory goes through its records, and that is another one at every question.
-/

namespace CodeIndex

variable {p q : String}

namespace Store

open CodeIndex.Embedding

variable {texts : Set String} {s s' : Store} {r : Request}

/-- What a store holds for one project, in a store of its own. -/
def share (q : String) : Store → Store
  | memory m => memory { m with
      files := m.filesOf q, records := m.recordsOf q, touched := m.touched.filter (·.1 == q), widest := 0, now := 0 }
  | table t => table { t with
      files := t.filesOf q, updatedAt := t.updatedAt.filter fun u => (t.filesOf q).any (·.id == u.1)
      embeddings := t.rowsOf q, widest := 0, now := 0 }

/-- The orders in which a store may come upon the counts of a project's signatures: a table has them in groups, one after
the other, and a store in memory in any order. -/
def Lists (project : String) : Store → List (Signature × Nat) → Prop
  | memory m, counts => counts.Perm (tally (m.recordsOf project))
  | table t, counts => counts = t.signatures project

/-- The answers that a store may give. -/
def MayAnswer (s : Store) : Request → Answer → Prop
  | .checkModel project current, a => ∃ counts, s.Lists project counts ∧ a = .change (modelChange counts current)
  | .projectModel project, a => ∃ counts, s.Lists project counts ∧ a = .model (majoritySignature counts)
  | r, a => a = (s.serve r).2

theorem lists_signatures (s : Store) (project : String) : s.Lists project (s.signatures project) := by
  cases s with
  | memory m => exact .refl _
  | table t => exact rfl

theorem mayAnswer_serve (s : Store) (r : Request) : s.MayAnswer r (s.serve r).2 := by
  cases r with
  | checkModel project current =>
    exact ⟨_, s.lists_signatures project, congrArg Answer.change (checkModel_eq s project current)⟩
  | projectModel project => exact ⟨_, s.lists_signatures project, congrArg Answer.model (projectModel_eq s project)⟩
  | _ => rfl

theorem Lists.perm {counts : List (Signature × Nat)} (h : s.Lists q counts) :
    counts.Perm (tally (s.rows.filter (·.project == q))) := by
  cases s with
  | memory m => exact h
  | table t =>
    obtain rfl : counts = t.signatures q := h
    exact signatures_perm (table t) q

/-- Any two answers that a store may give are the same, save for the pick among signatures that are tied. -/
theorem MayAnswer.agree {a b : Answer} (ha : s.MayAnswer r a) (hb : s.MayAnswer r b) : s.Agree r a b := by
  cases r with
  | checkModel project current =>
    obtain ⟨counts, hcounts, rfl⟩ := ha
    obtain ⟨counts', hcounts', rfl⟩ := hb
    have hperm : counts.Perm counts' := hcounts.perm.trans hcounts'.perm.symm
    refine ⟨?_, majority_tied (.refl _) hcounts.perm hcounts'.perm⟩
    rw [modelChange, modelChange, hperm.length_eq, hperm.any_eq]
  | projectModel project =>
    obtain ⟨counts, hcounts, rfl⟩ := ha
    obtain ⟨counts', hcounts', rfl⟩ := hb
    exact majority_tied (.refl _) hcounts.perm hcounts'.perm
  | stats project =>
    obtain rfl : a = _ := ha
    obtain rfl : b = _ := hb
    exact ⟨rfl, rfl⟩
  | _ =>
    obtain rfl : a = _ := ha
    exact Eq.symm hb

/-- Questions about one project. -/
def Request.Asks (q : String) : Request → Prop
  | .getFile project _ | .listFiles project | .stats project | .search project .. | .checkModel project _
  | .projectModel project | .projectRecords project => project = q
  | _ => False

theorem find?_share (files : List FileEntry) (project path : String) :
    (files.filter (·.project == project)).find? (fun f => f.project == project && f.path == path) =
      files.find? fun f => f.project == project && f.path == path := by
  rw [List.find?_filter]
  refine congrArg (List.find? · files) (funext fun f => ?_)
  rw [Bool.eq_iff_iff]
  simp

theorem filter_twice {α : Type} (keep : α → Bool) (xs : List α) : (xs.filter keep).filter keep = xs.filter keep := by
  rw [List.filter_filter]
  exact List.filter_congr fun x _ => Bool.and_self (keep x)

/-- The statistics of a project are told by its rows, and by when these were written. -/
theorem stats_congr {t t' : TableStore} (hrows : t'.rowsOf q = t.rowsOf q) (hfiles : t'.filesOf q = t.filesOf q)
    (htimes : ∀ f ∈ t.filesOf q, t'.writtenAt f.id = t.writtenAt f.id) : t'.stats q = t.stats q := by
  rw [TableStore.stats, TableStore.stats, hrows, hfiles, List.map_congr_left htimes]

theorem stats_share (s : Store) (q : String) : (s.share q).stats q = s.stats q := by
  cases s with
  | memory m =>
    have htouched : (m.touched.filter (·.1 == q)).lookup q = m.touched.lookup q :=
      (Lexical.lookup_filter (· == q) m.touched q).trans (if_pos (beq_self_eq_true q))
    simp only [share, stats, MemoryStore.stats, MemoryStore.filesOf, MemoryStore.recordsOf, filter_twice, htouched]
  | table t =>
    refine stats_congr (filter_twice ..) (filter_twice ..) fun f hf => ?_
    have hkept : ((t.filesOf q).any (·.id == f.id)) = true := List.any_eq_true.2 ⟨f, hf, beq_self_eq_true f.id⟩
    have hlookup := Lexical.lookup_filter (fun id => (t.filesOf q).any (·.id == id)) t.updatedAt f.id
    rw [if_pos hkept] at hlookup
    exact congrArg (Option.getD · 0) hlookup

/-- They are answered from its share alone. -/
theorem answer_share (s : Store) (h : r.Asks q) : ((s.share q).serve r).2 = (s.serve r).2 := by
  cases r with
  | getFile project path =>
    obtain rfl : project = q := h
    cases s with
    | memory m => exact congrArg Answer.file (find?_share m.files project _)
    | table t => exact congrArg Answer.file (find?_share t.files project _)
  | stats project =>
    obtain rfl : project = q := h
    exact congrArg Answer.stats (stats_share s project)
  | listFiles project | search project | checkModel project | projectModel project | projectRecords project =>
    obtain rfl : project = q := h
    cases s <;>
      simp only [serve, share, listFiles, MemoryStore.listFiles, MemoryStore.filesOf, TableStore.listFiles,
        TableStore.filesOf, search, MemoryStore.search, TableStore.search, checkModel, MemoryStore.checkModel,
        TableStore.checkModel, projectModel, MemoryStore.projectModel, TableStore.projectModel, TableStore.signatures,
        projectRecords, MemoryStore.projectRecords, TableStore.projectRecords, MemoryStore.recordsOf, TableStore.rowsOf,
        filter_twice]
  | _ => exact h.elim

theorem lists_share (s : Store) (q : String) (counts : List (Signature × Nat)) :
    (s.share q).Lists q counts ↔ s.Lists q counts := by
  cases s <;>
    simp only [share, Lists, MemoryStore.recordsOf, TableStore.signatures, TableStore.rowsOf, filter_twice]

theorem mayAnswer_share (s : Store) (h : r.Asks q) (a : Answer) : (s.share q).MayAnswer r a ↔ s.MayAnswer r a := by
  cases r with
  | checkModel project | projectModel project =>
    obtain rfl : project = q := h
    simp only [MayAnswer, lists_share]
  | _ =>
    have hsame := answer_share s h
    exact iff_of_eq (congrArg (a = ·) hsame)

/-- The identifier of a file of a project, whose key is among some texts. -/
def FileName (texts : Set String) (project id : String) : Prop :=
  ∃ path, fileKey project path ∈ texts ∧ id = fileId project path

/-- The identifier of a chunk of a project. -/
def ChunkName (texts : Set String) (project id : String) : Prop :=
  ∃ path index, chunkKey project path index ∈ texts ∧ id = chunkId project path index

/-- What is put goes under identifiers of its project. -/
def Request.Filed (texts : Set String) : Request → Prop
  | .putFile f => FileName texts f.project f.id
  | .put r => ChunkName texts r.project r.id ∧ FileName texts r.project r.fileId
  | _ => True

/-- What is put, deleted or cleared belongs to one project. -/
def Request.On (texts : Set String) (p : String) : Request → Prop
  | .putFile f => f.project = p
  | .put r => r.project = p
  | .deleteFile id | .deleteRecords id => FileName texts p id
  | .clear project => project = p
  | _ => True

/-- The entries and records of a project are under its identifiers. -/
structure Named (texts : Set String) (q : String) (s : Store) : Prop where
  entries : ∀ f ∈ s.entries, f.project = q → FileName texts q f.id
  records : ∀ r ∈ s.rows, r.project = q → ChunkName texts q r.id ∧ FileName texts q r.fileId

theorem FileName.apart (hids : Set.InjOn (Digest.Uuid.ofName idSpace) texts) (hpq : p ≠ q) (hp : ':' ∉ p.toList)
    (hq : ':' ∉ q.toList) {id id' : String} (h : FileName texts p id) (h' : FileName texts q id') : id ≠ id' := by
  obtain ⟨path, hm, rfl⟩ := h
  obtain ⟨path', hm', rfl⟩ := h'
  exact fun he => hpq (project_of_fileKey hp hq (hids hm hm' he))

theorem ChunkName.apart (hids : Set.InjOn (Digest.Uuid.ofName idSpace) texts) (hpq : p ≠ q) (hp : ':' ∉ p.toList)
    (hq : ':' ∉ q.toList) {id id' : String} (h : ChunkName texts p id) (h' : ChunkName texts q id') : id ≠ id' := by
  obtain ⟨path, i, hm, rfl⟩ := h
  obtain ⟨path', j, hm', rfl⟩ := h'
  exact fun he => hpq (project_of_chunkKey hp hq (hids hm hm' he))

/-- The share of a project is not touched by what touches another one. -/
theorem touched_share (m : MemoryStore) (hpq : p ≠ q) :
    (m.touch p).touched.filter (·.1 == q) = m.touched.filter (·.1 == q) :=
  filter_upsert (by simpa using hpq) fun u _ hu he => hpq (he.symm.trans (beq_iff_eq.1 hu))

/-- Nor are the times of its entries by another entry that is put. -/
theorem updatedAt_share (files : List FileEntry) {id : String} (h : ∀ g ∈ files, g.id ≠ id) (now : Nat)
    (times : List (String × Nat)) :
    (upsert Prod.fst (id, now) times).filter (fun u => files.any (·.id == u.1)) =
      times.filter fun u => files.any (·.id == u.1) := by
  have hnone : files.any (·.id == id) = false := List.any_eq_false.2 fun g hg => by simpa using h g hg
  refine filter_upsert hnone fun u _ hu he => ?_
  rw [show u.1 = id from he, hnone] at hu
  cases hu

theorem share_putFile {f : FileEntry} (h : s.putFile f = .ok s') (hf : f.project ≠ q)
    (hid : ∀ g ∈ s.entries, g.project = q → g.id ≠ f.id) : s'.share q = s.share q := by
  cases s with
  | memory m =>
    cases h
    have hfiles : (upsert FileEntry.id f m.files).filter (·.project == q) = m.files.filter (·.project == q) :=
      filter_upsert (by simpa using hf) fun g hg hq => hid g hg (by simpa using hq)
    have htouched := touched_share m hf
    simp only [share, MemoryStore.putFile, MemoryStore.filesOf, MemoryStore.recordsOf, hfiles, htouched]
    rfl
  | table t =>
    cases hp : t.putFile f with
    | error e =>
      simp only [putFile, hp] at h
      cases h
    | ok t' =>
      simp only [putFile, hp] at h
      cases h
      have htimes := updatedAt_share (t.filesOf q) (fun g hg => hid g (List.mem_of_mem_filter hg)
        (beq_iff_eq.1 (List.mem_filter.1 hg).2)) t.now t.updatedAt
      simp only [TableStore.filesOf] at htimes
      simp only [TableStore.putFile, bind, Except.bind] at hp
      repeat' split at hp
      all_goals cases hp
      · -- the row with that identifier is of another project, and stays there
        rename_i _ size _ _ lineCount _ _
        have hfiles : (t.files.map fun g => if g.id == f.id then
            { g with hash := f.hash, language := f.language, size, lineCount, modifiedMs := f.modifiedMs }
            else g).filter (·.project == q) = t.files.filter (·.project == q) := by
          refine filter_map_edit fun g hg => ?_
          by_cases hgid : g.id = f.id
          · have hgq : g.project ≠ q := fun hgq => hid g hg hgq hgid
            simp [hgid, hgq]
          · simp [hgid]
        simp only [share, TableStore.rowsOf, TableStore.filesOf, hfiles, htimes]
      · have hfiles : (t.files ++ [{ f with path := normalizePath f.path }]).filter (·.project == q) =
            t.files.filter (·.project == q) := by
          simp [List.filter_append, hf]
        simp only [share, TableStore.rowsOf, TableStore.filesOf, hfiles, htimes]

theorem share_put {r : Record} (h : s.put r = .ok s') (hr : r.project ≠ q)
    (hid : ∀ o ∈ s.rows, o.project = q → o.id ≠ r.id) : s'.share q = s.share q := by
  obtain ⟨m, rfl, rfl⟩ | ⟨t, rfl, rfl⟩ := put_cases h
  · have hrecords : (upsert Record.id r m.records).filter (·.project == q) = m.records.filter (·.project == q) :=
      filter_upsert (by simpa using hr) fun o ho hq => hid o ho (by simpa using hq)
    have htouched := touched_share m hr
    simp only [share, MemoryStore.filesOf, MemoryStore.recordsOf, hrecords, htouched]
    rfl
  · have hrows : List.filter (fun row : TableStore.Row => row.record.project == q)
        (t.embeddings.filter (fun row => row.record.id != r.id) ++
          [⟨{ r with vector := #[] }, TableStore.encode r.vector, t.now⟩]) =
        t.embeddings.filter (·.record.project == q) := by
      rw [List.filter_append, List.filter_filter]
      have hold : ∀ row ∈ t.embeddings,
          (row.record.project == q && row.record.id != r.id) = (row.record.project == q) := by
        intro row hrow
        by_cases hq : row.record.project = q
        · have hne : row.record.id ≠ r.id := hid (TableStore.view row) (List.mem_map_of_mem hrow) hq
          simp [hq, hne]
        · simp [hq]
      rw [List.filter_congr hold]
      simp [hr]
    simp only [share, TableStore.rowsOf, hrows]
    rfl

/-- What is deleted by an identifier is not of a project that has nothing under it. -/
theorem filter_delete {α : Type} (key project : α → String) {id : String} (xs : List α)
    (h : ∀ y ∈ xs, project y = q → key y ≠ id) :
    (xs.filter (key · != id)).filter (project · == q) = xs.filter (project · == q) := by
  rw [List.filter_filter]
  refine List.filter_congr fun y hy => ?_
  by_cases hq : project y = q
  · simp [hq, h y hy hq]
  · simp [hq]

theorem share_deleteRecords {id : String} (hid : ∀ o ∈ s.rows, o.project = q → o.fileId ≠ id) :
    (s.deleteRecords id).1.share q = s.share q := by
  cases s with
  | memory m =>
    have hrecords := filter_delete Record.fileId Record.project m.records hid
    simp only [share, deleteRecords, MemoryStore.deleteRecords, MemoryStore.filesOf, MemoryStore.recordsOf, hrecords]
  | table t =>
    have hrows := filter_delete (fun row : TableStore.Row => row.record.fileId) (fun row => row.record.project)
      t.embeddings fun row hrow => hid (TableStore.view row) (List.mem_map_of_mem hrow)
    simp only [share, deleteRecords, TableStore.deleteRecords, TableStore.rowsOf, hrows]
    rfl

theorem share_deleteFile {id : String} (hfile : ∀ f ∈ s.entries, f.project = q → f.id ≠ id)
    (hid : ∀ o ∈ s.rows, o.project = q → o.fileId ≠ id) : (s.deleteFile id).share q = s.share q := by
  cases s with
  | memory m =>
    have hfiles := filter_delete FileEntry.id FileEntry.project m.files hfile
    have hrecords := filter_delete Record.fileId Record.project m.records hid
    simp only [share, deleteFile, MemoryStore.deleteFile, MemoryStore.filesOf, MemoryStore.recordsOf, hfiles, hrecords]
    cases hf : m.files.find? (·.id == id) with
    | none => rfl
    | some f =>
      have hq : f.project ≠ q := fun hq =>
        hfile f (List.mem_of_find?_eq_some hf) hq (by simpa using List.find?_some hf)
      have htouched := touched_share m hq
      simp only [htouched]
      rfl
  | table t =>
    have hfiles := filter_delete FileEntry.id FileEntry.project t.files hfile
    have hrows := filter_delete (fun row : TableStore.Row => row.record.fileId) (fun row => row.record.project)
      t.embeddings fun row hrow => hid (TableStore.view row) (List.mem_map_of_mem hrow)
    simp only [share, deleteFile, TableStore.deleteFile, TableStore.rowsOf, TableStore.filesOf, hfiles, hrows]

theorem share_clear (s : Store) (hpq : p ≠ q) : (s.clear p).1.share q = s.share q := by
  have hne : ∀ {α : Type} (project : α → String) (xs : List α),
      (xs.filter (project · != p)).filter (project · == q) = xs.filter (project · == q) := by
    intro α project xs
    refine filter_delete project project xs fun y _ hq => ?_
    rw [hq]
    exact hpq.symm
  cases s with
  | memory m =>
    have htouched := touched_share m hpq
    simp only [share, clear, MemoryStore.clear, MemoryStore.filesOf, MemoryStore.recordsOf, hne, htouched]
    rfl
  | table t => simp only [share, clear, TableStore.clear, TableStore.rowsOf, TableStore.filesOf, hne]

/-- Room for longer vectors is all that is made. -/
theorem widen_cases {dimensions : Nat} (h : s.widen dimensions = .ok s') :
    (∃ m widest, s = memory m ∧ s' = memory { m with widest }) ∨
      ∃ t widest, s = table t ∧ s' = table { t with widest } := by
  cases s with
  | memory m =>
    cases hc : m.checkLimit dimensions with
    | error e =>
      simp only [widen, MemoryStore.widen, hc] at h
      cases h
    | ok u =>
      simp only [widen, MemoryStore.widen, hc] at h
      cases h
      exact .inl ⟨m, _, rfl, rfl⟩
  | table t =>
    cases hw : t.widen dimensions with
    | error e =>
      simp only [widen, hw] at h
      cases h
    | ok t' =>
      simp only [widen, hw] at h
      cases h
      simp only [TableStore.widen, bind, Except.bind] at hw
      repeat' split at hw
      all_goals cases hw
      all_goals exact .inr ⟨t, _, rfl, rfl⟩

theorem share_widen {dimensions : Nat} (h : s.widen dimensions = .ok s') : s'.share q = s.share q := by
  obtain ⟨m, widest, rfl, rfl⟩ | ⟨t, widest, rfl, rfl⟩ := widen_cases h <;> rfl

theorem share_atTime (s : Store) (now : Nat) : (s.atTime now).share q = s.share q := by cases s <;> rfl

theorem entries_widen {dimensions : Nat} (h : s.widen dimensions = .ok s') :
    s'.entries = s.entries ∧ s'.rows = s.rows := by
  obtain ⟨m, widest, rfl, rfl⟩ | ⟨t, widest, rfl, rfl⟩ := widen_cases h <;> exact ⟨rfl, rfl⟩

/-- What is put keeps every entry's identifier with its project, or brings its own. -/
theorem mem_entries_putFile {f g : FileEntry} (h : s.putFile f = .ok s') (hg : g ∈ s'.entries) :
    (g.project = f.project ∧ g.id = f.id) ∨ ∃ g₀ ∈ s.entries, g.project = g₀.project ∧ g.id = g₀.id := by
  cases s with
  | memory m =>
    cases h
    have hfiles : (m.putFile f).files = upsert FileEntry.id f m.files := rfl
    have hg : g ∈ upsert FileEntry.id f m.files := hg
    unfold upsert at hg
    split at hg
    · obtain ⟨g₀, hg₀, rfl⟩ := List.mem_map.1 hg
      split
      · exact .inl ⟨rfl, rfl⟩
      · exact .inr ⟨g₀, hg₀, rfl, rfl⟩
    · obtain hg | hg := List.mem_append.1 hg
      · exact .inr ⟨g, hg, rfl, rfl⟩
      · cases List.mem_singleton.1 hg
        exact .inl ⟨rfl, rfl⟩
  | table t =>
    cases hp : t.putFile f with
    | error e =>
      simp only [putFile, hp] at h
      cases h
    | ok t' =>
      simp only [putFile, hp] at h
      cases h
      simp only [TableStore.putFile, bind, Except.bind] at hp
      repeat' split at hp
      all_goals cases hp
      · obtain ⟨g₀, hg₀, rfl⟩ := List.mem_map.1 hg
        refine .inr ⟨g₀, hg₀, ?_⟩
        split <;> exact ⟨rfl, rfl⟩
      · obtain hg | hg := List.mem_append.1 hg
        · exact .inr ⟨g, hg, rfl, rfl⟩
        · cases List.mem_singleton.1 hg
          exact .inl ⟨rfl, rfl⟩

/-- Requests that file what they put keep the entries and records of every project under its identifiers. -/
theorem Named.serve (h : s.Named texts q) (hr : r.Filed texts) : (s.serve r).1.Named texts q := by
  have settled : ∀ x : Except StoreError Store,
      (∀ s', x = .ok s' → s'.Named texts q) → (s.settle x).1.Named texts q := by
    intro x hx
    cases x with
    | ok s' => exact hx s' rfl
    | error e => exact h
  have filtered : ∀ (s' : Store) (keep : FileEntry → Bool) (keep' : Record → Bool), s'.entries = s.entries.filter keep →
      s'.rows = s.rows.filter keep' → s'.Named texts q := by
    intro s' keep keep' hentries hrows
    refine ⟨fun f hf => ?_, fun o ho => ?_⟩
    · rw [hentries] at hf
      exact h.entries f (List.mem_of_mem_filter hf)
    · rw [hrows] at ho
      exact h.records o (List.mem_of_mem_filter ho)
  cases r with
  | putFile f =>
    refine settled _ fun s' hs => ⟨fun g hg hq => ?_, fun o ho => ?_⟩
    · obtain ⟨hproject, hid⟩ | ⟨g₀, hg₀, hproject, hid⟩ := mem_entries_putFile hs hg
      · rw [hid, ← hq, hproject]
        exact hr
      · rw [hid]
        exact h.entries g₀ hg₀ (hproject.symm.trans hq)
    · rw [rows_putFile hs] at ho
      exact h.records o ho
  | put r =>
    refine settled _ fun s' hs => ⟨fun f hf => ?_, fun o ho hq => ?_⟩
    · rw [entries_put hs] at hf
      exact h.entries f hf
    · obtain ⟨ho, -⟩ | rfl := (mem_rows_put hs).1 ho
      · exact h.records o ho hq
      · rw [← hq]
        exact hr
  | widen dimensions =>
    refine settled _ fun s' hs => ?_
    obtain ⟨hentries, hrows⟩ := entries_widen hs
    exact ⟨hentries ▸ h.entries, hrows ▸ h.records⟩
  | deleteFile id => exact filtered _ _ _ (entries_deleteFile s id) (rows_deleteFile s id)
  | deleteRecords id =>
    exact filtered _ (fun _ => true) _ (by simp [Store.serve]) (rows_deleteRecords s id)
  | clear project => exact filtered _ _ _ (entries_clear s project) (rows_clear s project)
  | tick now => exact filtered _ (fun _ => true) (fun _ => true) (by simp [Store.serve]) (by simp [Store.serve])
  | _ => exact h

/-- What is asked for one project leaves the share of another as it is. -/
theorem share_serve (hids : Set.InjOn (Digest.Uuid.ofName idSpace) texts) (hpq : p ≠ q) (hp : ':' ∉ p.toList)
    (hq : ':' ∉ q.toList) (h : s.Named texts q) (hfiled : r.Filed texts) (hr : r.On texts p) :
    (s.serve r).1.share q = s.share q := by
  have settled : ∀ x : Except StoreError Store, (∀ s', x = .ok s' → s'.share q = s.share q) →
      (s.settle x).1.share q = s.share q := by
    intro x hx
    cases x with
    | ok s' => exact hx s' rfl
    | error e => rfl
  have hfile : ∀ {id}, FileName texts p id → ∀ f ∈ s.entries, f.project = q → f.id ≠ id := fun hn f hf hfq =>
    (hn.apart hids hpq hp hq (h.entries f hf hfq)).symm
  have hrecord : ∀ {id}, FileName texts p id → ∀ o ∈ s.rows, o.project = q → o.fileId ≠ id := fun hn o ho hoq =>
    (hn.apart hids hpq hp hq (h.records o ho hoq).2).symm
  cases r with
  | putFile f =>
    obtain rfl : f.project = p := hr
    exact settled _ fun s' hs => share_putFile hs hpq (hfile hfiled)
  | put r =>
    obtain rfl : r.project = p := hr
    exact settled _ fun s' hs => share_put hs hpq fun o ho hoq =>
      (hfiled.1.apart hids hpq hp hq (h.records o ho hoq).1).symm
  | widen dimensions => exact settled _ fun s' hs => share_widen hs
  | deleteFile id => exact share_deleteFile (hfile hr) (hrecord hr)
  | deleteRecords id => exact share_deleteRecords (hrecord hr)
  | clear project =>
    obtain rfl : project = p := hr
    exact share_clear s hpq
  | tick now => exact share_atTime s now
  | _ => rfl

theorem Named.after (h : s.Named texts q) {requests : List Request} (hr : ∀ r ∈ requests, r.Filed texts) :
    (s.after requests).Named texts q := by
  induction requests generalizing s with
  | nil => exact h
  | cons r requests ih => exact ih (h.serve (hr r List.mem_cons_self)) fun r' hr' => hr r' (List.mem_cons_of_mem r hr')

/-- However many requests are made for one project, the share of another stays. -/
theorem share_after (hids : Set.InjOn (Digest.Uuid.ofName idSpace) texts) (hpq : p ≠ q) (hp : ':' ∉ p.toList)
    (hq : ':' ∉ q.toList) (h : s.Named texts q) {requests : List Request}
    (hr : ∀ r ∈ requests, r.Filed texts ∧ r.On texts p) : (s.after requests).share q = s.share q := by
  induction requests generalizing s with
  | nil => rfl
  | cons r requests ih =>
    obtain ⟨hfiled, hon⟩ := hr r List.mem_cons_self
    have hrest := ih (h.serve hfiled) fun r' hr' => hr r' (List.mem_cons_of_mem r hr')
    exact hrest.trans (share_serve hids hpq hp hq h hfiled hon)

end Store

namespace Lexical

/-- What is done to the words of a project. -/
inductive Edit where
  | file (project path : String) (chunks : List Chunk) (symbols : List Symbol)
  | records (project : String) (records : List Record)
  | remove (project path : String)
  | clear (project : String)

def Edit.project : Edit → String
  | file project .. | records project _ | remove project _ | clear project => project

namespace Index

variable {ix : Index} {e : Edit}

def edit (ix : Index) : Edit → Index
  | .file project path chunks symbols => ix.indexFile project path chunks symbols
  | .records project records => ix.indexRecords project records
  | .remove project path => ix.removeFile project path
  | .clear project => ix.clearProject project

/-- The words after some edits. -/
def edited (ix : Index) (edits : List Edit) : Index := edits.foldl edit ix

/-- An edit leaves the shelves of all other projects as they are. -/
theorem shelf_edit (h : e.project ≠ q) : (ix.edit e).shelf q = ix.shelf q := by
  cases e with
  | file project | records project | remove project => exact (shelf_setShelf ..).trans (if_neg (Ne.symm h))
  | clear project =>
    have hlookup := lookup_filter (· != project) ix.projects q
    have hne : q ≠ project := fun he => h he.symm
    rw [if_pos (bne_iff_ne.2 hne)] at hlookup
    rw [shelf_eq, shelf_eq, ← hlookup]
    rfl

theorem shelf_edited {edits : List Edit} (h : ∀ e ∈ edits, e.project ≠ q) : (ix.edited edits).shelf q = ix.shelf q := by
  induction edits generalizing ix with
  | nil => rfl
  | cons e edits ih =>
    have hrest : ((ix.edit e).edited edits).shelf q = (ix.edit e).shelf q :=
      ih fun d hd => h d (List.mem_cons_of_mem e hd)
    exact hrest.trans (shelf_edit (h e List.mem_cons_self))

/-- What is asked of the words of a project is answered from its shelf. -/
structure Alike (q : String) (ix ix' : Index) : Prop where
  files : ix.files q = ix'.files q
  contains : ∀ path, ix.containsFile q path = ix'.containsFile q path
  stats : ix.stats q = ix'.stats q
  search : ∀ text k, search ix q text k = Lexical.search ix' q text k

theorem alike_of_shelf {ix' : Index} (h : ix.shelf q = ix'.shelf q) : ix.Alike q ix' := by
  have hentries : ix.entries q = ix'.entries q := by rw [entries, entries, h]
  refine ⟨by rw [Index.files, Index.files, h], fun path => by rw [containsFile, containsFile, h], ?_, fun text k => ?_⟩
  · simp only [stats, hentries, h]
  · simp only [Lexical.search, hentries]

end Index

end Lexical

/-- Whatever is done in the name of one project, and however much time passes, a store of either kind may answer every
question about another one as before, and not otherwise. Only where signatures are tied may two answers be different at
all. And the words answer as before. -/
theorem isolated {texts : Set String} (hids : Set.InjOn (Digest.Uuid.ofName idSpace) texts) (hpq : p ≠ q)
    (hp : ':' ∉ p.toList) (hq : ':' ∉ q.toList) (limit : Option Nat) {history more : List Store.Request}
    (hhistory : ∀ r ∈ history, r.Filed texts) (hmore : ∀ r ∈ more, r.Filed texts ∧ r.On texts p)
    (ix : Lexical.Index) {edits : List Lexical.Edit} (hedits : ∀ e ∈ edits, e.project = p) :
    (∀ start ∈ [Store.memory { limit }, Store.table { limit }], ∀ r : Store.Request, r.Asks q →
      (∀ a, ((start.after history).after more).MayAnswer r a ↔ (start.after history).MayAnswer r a) ∧
        ∀ a b, (start.after history).MayAnswer r a → ((start.after history).after more).MayAnswer r b →
          (start.after history).Agree r a b) ∧
      (ix.edited edits).Alike q ix := by
  refine ⟨fun start hstart r hr => ?_, Lexical.Index.alike_of_shelf (Lexical.Index.shelf_edited fun e he => ?_)⟩
  · have hnamed : start.Named texts q := by
      simp only [List.mem_cons, List.not_mem_nil, or_false] at hstart
      obtain rfl | rfl := hstart <;> exact ⟨nofun, nofun⟩
    have hsame : ∀ a, ((start.after history).after more).MayAnswer r a ↔ (start.after history).MayAnswer r a := by
      intro a
      rw [← Store.mayAnswer_share _ hr, Store.share_after hids hpq hp hq (hnamed.after hhistory) hmore,
        Store.mayAnswer_share _ hr]
    exact ⟨hsame, fun a b ha hb => ha.agree ((hsame b).1 hb)⟩
  · rw [hedits e he]
    exact hpq

/-- The entry of a small file of some project. -/
def noteIn (project : String) : FileEntry := { Store.note with id := fileId project "a.md", project }

/-- Its record. -/
def noteRecordIn (project : String) : Record :=
  { Store.noteRecord 1 with id := chunkId project "a.md" 0, project, fileId := fileId project "a.md" }

def noteKeys : List String := [fileKey "p" "a.md", chunkKey "p" "a.md" 0, fileKey "q" "a.md", chunkKey "q" "a.md" 0]

theorem nodup_noteKeys : (noteKeys.map (Digest.Uuid.ofName idSpace)).Nodup := by
  obtain ⟨ha, -, ha₀, -⟩ := ids_of_two
  have hother : fileId "q" "a.md" = "9ee027e6-467c-584f-acaf-61fb2f03b52e" ∧
      chunkId "q" "a.md" 0 = "3f14b49a-0348-5b6b-bfaa-d0dee9c800ab" := by decide +kernel
  change [fileId "p" "a.md", chunkId "p" "a.md" 0, fileId "q" "a.md", chunkId "q" "a.md" 0].Nodup
  rw [ha, ha₀, hother.1, hother.2]
  decide

/-- Later a file of the same name in another project is put, embedded and deleted, and its project cleared. -/
theorem isolated_note :
    let s := (Store.table {}).after [.putFile (noteIn "q"), .put (noteRecordIn "q")]
    let s' := s.after
      [.tick 1, .putFile (noteIn "p"), .put (noteRecordIn "p"), .deleteFile (fileId "p" "a.md"), .clear "p"]
    (∀ r ∈ [Store.Request.stats "q", .projectModel "q", .projectRecords "q"],
      ∀ a, s'.MayAnswer r a ↔ s.MayAnswer r a) ∧
      (({} : Lexical.Index).edited [.records "p" [noteRecordIn "p"], .clear "p"]).Alike "q" {} := by
  have hids : Set.InjOn (Digest.Uuid.ofName idSpace) {text | text ∈ noteKeys} := fun _ ha _ hb =>
    List.inj_on_of_nodup_map nodup_noteKeys ha hb
  have hfile : ∀ project ∈ ["p", "q"], Store.FileName {text | text ∈ noteKeys} project (fileId project "a.md") :=
    fun project hproject => ⟨"a.md", by revert project; decide +kernel, rfl⟩
  have hchunk : ∀ project ∈ ["p", "q"], Store.ChunkName {text | text ∈ noteKeys} project (chunkId project "a.md" 0) :=
    fun project hproject => ⟨"a.md", 0, by revert project; decide +kernel, rfl⟩
  have hp : "p" ∈ ["p", "q"] := List.mem_cons_self
  have hq : "q" ∈ ["p", "q"] := List.mem_cons_of_mem _ List.mem_cons_self
  have hhistory : ∀ r ∈ [Store.Request.putFile (noteIn "q"), .put (noteRecordIn "q")],
      r.Filed {text | text ∈ noteKeys} := by
    simp only [List.forall_mem_cons, Store.Request.Filed]
    exact ⟨hfile "q" hq, ⟨hchunk "q" hq, hfile "q" hq⟩, nofun⟩
  have hmore : ∀ r ∈ [Store.Request.tick 1, .putFile (noteIn "p"), .put (noteRecordIn "p"),
      .deleteFile (fileId "p" "a.md"), .clear "p"],
      r.Filed {text | text ∈ noteKeys} ∧ r.On {text | text ∈ noteKeys} "p" := by
    simp only [List.forall_mem_cons, Store.Request.Filed, Store.Request.On]
    exact ⟨⟨trivial, trivial⟩, ⟨hfile "p" hp, rfl⟩, ⟨⟨hchunk "p" hp, hfile "p" hp⟩, rfl⟩, ⟨trivial, hfile "p" hp⟩,
      ⟨trivial, trivial⟩, nofun⟩
  have hedits : ∀ e ∈ [Lexical.Edit.records "p" [noteRecordIn "p"], .clear "p"], e.project = "p" := by
    simp [Lexical.Edit.project]
  obtain ⟨hstore, hwords⟩ := isolated (q := "q") hids (by decide) (by decide) (by decide) none hhistory hmore {} hedits
  refine ⟨fun r hr => (hstore _ (List.mem_cons_of_mem _ List.mem_cons_self) r ?_).1, hwords⟩
  simp only [List.mem_cons, List.not_mem_nil, or_false] at hr
  obtain rfl | rfl | rfl := hr <;> rfl

end CodeIndex
