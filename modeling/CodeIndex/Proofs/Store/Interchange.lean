import CodeIndex.Proofs.Store.Answers
import Mathlib.Data.Set.Function

/-!
The two kinds of store cannot be told apart by what they answer. Asked the same, they keep equal entries, and records
that differ in their order alone: one kind puts a record in the place of the one before, the other puts it last.
-/

namespace CodeIndex

open Number CodeIndex.Embedding

/-- An entry that is filed under the identifier of its path, in numbers that a column can hold. -/
structure FileEntry.Proper (keys : Set (String × String)) (f : FileEntry) : Prop where
  key : (f.project, f.path) ∈ keys
  id : f.id = fileId f.project f.path
  path : normalizePath f.path = f.path
  size : f.size < 2 ^ 63
  lineCount : f.lineCount < 2 ^ 63

/-- A record that is filed under the identifier of its place and is as long as it says, in numbers that a column can
hold. -/
structure Record.Proper (r : Record) : Prop where
  id : r.id = chunkId r.project r.path r.index
  fileId : r.fileId = CodeIndex.fileId r.project r.path
  size : r.vector.size = r.dimensions
  index : r.index < 2 ^ 63
  dimensions : r.dimensions < 2 ^ 63
  startLine : r.startLine < 2 ^ 63
  endLine : r.endLine < 2 ^ 63

theorem Record.Proper.fits {r : Record} (h : r.Proper) {σ : Store.Settings}
    (hd : ∀ limit, σ.limit = some limit → r.dimensions ≤ limit) : σ.Fits r :=
  ⟨⟨fun _ => h.dimensions, hd⟩, fun _ => h.index, fun _ => h.startLine, fun _ => h.endLine⟩

namespace Store

/-- What a store can be asked. -/
inductive Request where
  | putFile (f : FileEntry)
  | getFile (project path : String)
  | listFiles (project : String)
  | deleteFile (id : String)
  | put (r : Record)
  | deleteRecords (fileId : String)
  | stats (project : String)
  | widen (dimensions : Nat)
  | search (project : String) (query : Vec) (k : Nat) (minScore : Single)
  | checkModel (project : String) (current : Signature)
  | projectModel (project : String)
  | clear (project : String)
  | projectRecords (project : String)
  /-- No request: the clock shows another time. -/
  | tick (now : Nat)

inductive Answer where
  | done
  | refused (e : StoreError)
  | file (f : Option FileEntry)
  | files (fs : List FileEntry)
  | count (n : Nat)
  | stats (s : ProjectStats)
  | found (rs : List Scored)
  | change (c : ModelChange)
  | model (m : Option Signature)
  | records (rs : List Record)

/-- The answer to a change: the changed store, or the same one with the reason why it refuses. -/
def settle (s : Store) : Except StoreError Store → Store × Answer
  | .ok s' => (s', .done)
  | .error e => (s, .refused e)

def Answer.ofExcept {α : Type} (answer : α → Answer) : Except StoreError α → Answer
  | .ok x => answer x
  | .error e => .refused e

def serve (s : Store) : Request → Store × Answer
  | .putFile f => s.settle (s.putFile f)
  | .getFile project path => (s, .file (s.getFile project path))
  | .listFiles project => (s, .files (s.listFiles project))
  | .deleteFile id => (s.deleteFile id, .done)
  | .put r => s.settle (s.put r)
  | .deleteRecords fileId => ((s.deleteRecords fileId).1, .count (s.deleteRecords fileId).2)
  | .stats project => (s, .stats (s.stats project))
  | .widen dimensions => s.settle (s.widen dimensions)
  | .search project query k minScore => (s, .ofExcept .found (s.search project query k minScore))
  | .checkModel project current => (s, .change (s.checkModel project current))
  | .projectModel project => (s, .model (s.projectModel project))
  | .clear project => ((s.clear project).1, .count (s.clear project).2)
  | .projectRecords project => (s, .ofExcept .records (s.projectRecords project))
  | .tick now => (s.atTime now, .done)

/-- The store after some requests. -/
def after (s : Store) (requests : List Request) : Store := requests.foldl (fun s q => (s.serve q).1) s

theorem after_cons (s : Store) (q : Request) (requests : List Request) :
    s.after (q :: requests) = (s.serve q).1.after requests := rfl

theorem after_append (s : Store) (requests later : List Request) :
    s.after (requests ++ later) = (s.after requests).after later := List.foldl_append

/-- Requests as the program makes them: entries and records in order, and all numbers such that a column can hold
them. -/
def Request.Proper (keys : Set (String × String)) : Request → Prop
  | .putFile f => f.Proper keys
  | .put r => r.Proper
  | .widen dimensions => dimensions < 2 ^ 63
  | .search _ query _ _ => query.size < 2 ^ 63
  | _ => True

/-- The same answer to a request of a store and of another one, save for the time of last update and for the pick
among signatures that are tied. -/
def Agree (s : Store) : Request → Answer → Answer → Prop
  | .stats _, .stats a, .stats b => a.chunks = b.chunks ∧ a.files = b.files
  | .checkModel project _, .change a, .change b =>
    a.changed = b.changed ∧ Option.Rel (Tied (s.rows.filter (·.project == project))) a.previous b.previous
  | .projectModel project, .model a, .model b =>
    Option.Rel (Tied (s.rows.filter (·.project == project))) a b
  | _, a, b => a = b

/-- Two stores that hold the same, each entry and each record in order and under an identifier of its own. -/
structure Twins (keys : Set (String × String)) (s t : Store) : Prop where
  ids : (s.entries.map (·.id)).Nodup
  filed : ∀ f ∈ s.entries, f.Proper keys
  recordIds : (s.rows.map (·.id)).Nodup
  proper : ∀ r ∈ s.rows, r.Proper
  sane : s.Sane ∧ t.Sane
  limit : s.settings.limit = t.settings.limit
  entries : s.entries = t.entries
  rows : s.rows.Perm t.rows

variable {keys : Set (String × String)} {s s' t t' : Store} {f : FileEntry} {r : Record} {q : Request}

theorem twins_empty (limit : Option Nat) : Twins keys (memory { limit }) (table { limit }) where
  ids := List.nodup_nil
  filed := by simp [Store.entries]
  recordIds := List.nodup_nil
  proper := by simp [Store.rows]
  sane := ⟨trivial, Nat.two_pow_pos 63⟩
  limit := rfl
  entries := rfl
  rows := .refl []

/-- Dropping the same from both keeps them alike. -/
theorem Twins.filtered (h : Twins keys s t) (p : FileEntry → Bool) (q : Record → Bool)
    (hs : s'.entries = s.entries.filter p ∧ s'.rows = s.rows.filter q ∧ s.Keeps s')
    (ht : t'.entries = t.entries.filter p ∧ t'.rows = t.rows.filter q ∧ t.Keeps t') : Twins keys s' t' where
  ids := by
    rw [hs.1]
    exact h.ids.sublist (List.filter_sublist.map _)
  filed := by
    rw [hs.1]
    intro f hf
    exact h.filed f (List.mem_of_mem_filter hf)
  recordIds := by
    rw [hs.2.1]
    exact h.recordIds.sublist (List.filter_sublist.map _)
  proper := by
    rw [hs.2.1]
    intro r hr
    exact h.proper r (List.mem_of_mem_filter hr)
  sane := ⟨hs.2.2.sane h.sane.1, ht.2.2.sane h.sane.2⟩
  limit := by rw [hs.2.2.settings, ht.2.2.settings, h.limit]
  entries := by rw [hs.1, ht.1, h.entries]
  rows := by
    rw [hs.2.1, ht.2.1]
    exact h.rows.filter q

/-- Both take an entry: its identifier tells its project and path. -/
theorem Twins.putFile (h : Twins keys s t) (hkeys : Set.InjOn (fun k : String × String => fileId k.1 k.2) keys)
    (hf : f.Proper keys) :
    ∃ s' t', s.putFile f = .ok s' ∧ t.putFile f = .ok t' ∧ Twins keys s' t' := by
  have hkey : ∀ g ∈ s.entries, g.id = f.id ↔ g.project = f.project ∧ g.path = f.path := by
    intro g hg
    rw [(h.filed g hg).id, hf.id]
    constructor
    · intro he
      exact Prod.mk.inj (hkeys (h.filed g hg).key hf.key he)
    · rintro ⟨hproject, hpath⟩
      rw [hproject, hpath]
  obtain ⟨s', hs, hes, hrs, hks⟩ := putFile_ok hf.path hkey (fun _ => hf.size) (fun _ => hf.lineCount)
  rw [h.entries] at hkey
  obtain ⟨t', ht, het, hrt, hkt⟩ := putFile_ok hf.path hkey (fun _ => hf.size) (fun _ => hf.lineCount)
  have hperm := withEntry_perm (f := f) h.ids
  refine ⟨s', t', hs, ht, ?_, ?_, ?_, ?_, ?_, ?_, ?_, ?_⟩
  · rw [hes, (hperm.map _).nodup_iff]
    exact nodup_replaced f h.ids
  · intro g hg
    rw [hes, hperm.mem_iff] at hg
    obtain rfl | hg := List.mem_cons.1 hg
    · exact hf
    · exact h.filed g (List.mem_of_mem_filter hg)
  · rw [hrs]
    exact h.recordIds
  · rw [hrs]
    exact h.proper
  · exact ⟨hks.sane h.sane.1, hkt.sane h.sane.2⟩
  · rw [hks.settings, hkt.settings, h.limit]
  · rw [hes, het, h.entries]
  · rw [hrs, hrt]
    exact h.rows

/-- The numbers of a record fit, so that it is within the limit of both or beyond that of both. -/
theorem Twins.put (h : Twins keys s t) (hr : r.Proper) :
    (∃ s' t', s.put r = .ok s' ∧ t.put r = .ok t' ∧ Twins keys s' t') ∨
      ∃ e, s.put r = .error e ∧ t.put r = .error e := by
  by_cases hd : ∀ limit, s.settings.limit = some limit → r.dimensions ≤ limit
  · left
    obtain ⟨s', hs⟩ := put_within (hr.fits hd)
    rw [h.limit] at hd
    obtain ⟨t', ht⟩ := put_within (hr.fits hd)
    have hes := entries_put hs
    have hrs := rows_put_perm hs h.recordIds
    have hrt := rows_put_perm ht ((h.rows.map _).nodup_iff.1 h.recordIds)
    have hks := keeps_put hs
    have hkt := keeps_put ht
    refine ⟨s', t', hs, ht, ?_, ?_, ?_, ?_, ?_, ?_, ?_, ?_⟩
    · rw [hes]
      exact h.ids
    · rw [hes]
      exact h.filed
    · rw [(hrs.map _).nodup_iff]
      exact nodup_replaced r h.recordIds
    · intro q hq
      rw [hrs.mem_iff] at hq
      obtain rfl | hq := List.mem_cons.1 hq
      · exact hr
      · exact h.proper q (List.mem_of_mem_filter hq)
    · exact ⟨hks.sane h.sane.1, hkt.sane h.sane.2⟩
    · rw [hks.settings, hkt.settings, h.limit]
    · rw [hes, entries_put ht, h.entries]
    · exact hrs.trans (((h.rows.filter _).cons r).trans hrt.symm)
  · right
    obtain ⟨limit, hl, hlt⟩ : ∃ limit, s.settings.limit = some limit ∧ limit < r.dimensions := by
      simpa using hd
    exact ⟨_, put_beyond hl hlt, put_beyond (h.limit ▸ hl) hlt⟩

theorem Twins.widen {dimensions : Nat} (h : Twins keys s t) (hn : dimensions < 2 ^ 63) :
    (∃ s' t', s.widen dimensions = .ok s' ∧ t.widen dimensions = .ok t' ∧ Twins keys s' t') ∨
      ∃ e, s.widen dimensions = .error e ∧ t.widen dimensions = .error e := by
  by_cases hd : ∀ limit, s.settings.limit = some limit → dimensions ≤ limit
  · left
    obtain ⟨s', hs⟩ := widen_within (s := s) ⟨fun _ => hn, hd⟩
    rw [h.limit] at hd
    obtain ⟨t', ht⟩ := widen_within (s := t) ⟨fun _ => hn, hd⟩
    obtain ⟨hrs, hes, hks, -⟩ := widen_spec hs h.sane.1
    obtain ⟨hrt, het, hkt, -⟩ := widen_spec ht h.sane.2
    refine ⟨s', t', hs, ht, h.filtered (fun _ => true) (fun _ => true) ?_ ?_⟩
    · simp [hrs, hes, hks]
    · simp [hrt, het, hkt]
  · right
    obtain ⟨limit, hl, hlt⟩ : ∃ limit, s.settings.limit = some limit ∧ limit < dimensions := by
      simpa using hd
    exact ⟨_, widen_beyond hl hlt, widen_beyond (h.limit ▸ hl) hlt⟩

/-- Both agree on a change that either both take or both refuse alike. -/
theorem Twins.settle {x y : Except StoreError Store} (h : Twins keys s t)
    (hxy : (∃ s' t', x = .ok s' ∧ y = .ok t' ∧ Twins keys s' t') ∨ ∃ e, x = .error e ∧ y = .error e) :
    Twins keys (s.settle x).1 (t.settle y).1 ∧ (s.settle x).2 = (t.settle y).2 := by
  obtain ⟨s', t', rfl, rfl, h'⟩ | ⟨e, rfl, rfl⟩ := hxy
  · exact ⟨h', rfl⟩
  · exact ⟨h, rfl⟩

/-- Records of one project in the same place are the same. -/
theorem Twins.place (h : Twins keys s t) {a b : Record} (ha : a ∈ s.rows) (hb : b ∈ s.rows)
    (hproject : a.project = b.project) (hpath : a.path = b.path) (hindex : a.index = b.index) : a = b := by
  apply List.inj_on_of_nodup_map h.recordIds ha hb
  rw [(h.proper a ha).id, (h.proper b hb).id, hproject, hpath, hindex]

theorem Twins.size_left (h : Twins keys s t) : ∀ r ∈ s.rows, r.vector.size = r.dimensions :=
  fun r hr => (h.proper r hr).size

theorem Twins.size_right (h : Twins keys s t) : ∀ r ∈ t.rows, r.vector.size = r.dimensions :=
  fun r hr => h.size_left r (h.rows.mem_iff.2 hr)

theorem Twins.search_eq {query : Vec} (h : Twins keys s t) (hq : query.size < 2 ^ 63) (project : String) (k : Nat)
    (minScore : Single) : s.search project query k minScore = t.search project query k minScore :=
  (search_congr h.recordIds ((h.rows.map _).nodup_iff.1 h.recordIds) h.size_left h.size_right (fun _ => hq)
    (fun _ => hq) (fun _ _ => h.rows.mem_iff.symm) k minScore).symm

/-- In the order in which they were cut, the records of a project are the same in both. -/
theorem Twins.projectRecords_eq (h : Twins keys s t) (project : String) :
    s.projectRecords project = t.projectRecords project := by
  rw [Store.projectRecords_eq h.size_left, Store.projectRecords_eq h.size_right,
    byPosition_congr (h.rows.filter (·.project == project))]
  intro a ha b hb
  obtain ⟨ha, hpa⟩ := List.mem_filter.1 ha
  obtain ⟨hb, hpb⟩ := List.mem_filter.1 hb
  exact h.place ha hb ((beq_iff_eq.1 hpa).trans (beq_iff_eq.1 hpb).symm)

/-- One request leaves both stores alike and gets the same answer from both. -/
theorem Twins.serve (h : Twins keys s t) (hkeys : Set.InjOn (fun k : String × String => fileId k.1 k.2) keys)
    (hq : q.Proper keys) :
    Twins keys (s.serve q).1 (t.serve q).1 ∧ s.Agree q (s.serve q).2 (t.serve q).2 := by
  have hproject : ∀ project, (s.rows.filter (·.project == project)).Perm (t.rows.filter (·.project == project)) :=
    fun project => h.rows.filter _
  cases q with
  | putFile f => exact h.settle (.inl (h.putFile hkeys hq))
  | getFile project path =>
    refine ⟨h, ?_⟩
    simp only [Store.serve, Agree, getFile_eq, h.entries]
  | listFiles project =>
    refine ⟨h, ?_⟩
    simp only [Store.serve, Agree, listFiles_eq, h.entries]
  | deleteFile id =>
    exact ⟨h.filtered _ _ ⟨entries_deleteFile s id, rows_deleteFile s id, keeps_deleteFile s id⟩
      ⟨entries_deleteFile t id, rows_deleteFile t id, keeps_deleteFile t id⟩, rfl⟩
  | put r => exact h.settle (h.put hq)
  | deleteRecords fileId =>
    constructor
    · apply h.filtered (fun _ => true) (·.fileId != fileId)
      · exact ⟨by simp [Store.serve], rows_deleteRecords s fileId, keeps_deleteRecords s fileId⟩
      · exact ⟨by simp [Store.serve], rows_deleteRecords t fileId, keeps_deleteRecords t fileId⟩
    · simp only [Store.serve, Agree, count_deleteRecords, h.rows.countP_eq]
  | stats project =>
    refine ⟨h, ?_, ?_⟩
    · rw [chunks_stats, chunks_stats, (hproject project).length_eq]
    · rw [files_stats, files_stats, h.entries]
  | widen dimensions => exact h.settle (h.widen hq)
  | search project query k minScore =>
    refine ⟨h, ?_⟩
    simp only [Store.serve, Agree, h.search_eq hq]
  | checkModel project current =>
    refine ⟨h, ?_, ?_⟩
    · rw [Bool.eq_iff_iff, changed_iff, changed_iff]
      simp only [h.rows.mem_iff]
    · rw [checkModel_eq, checkModel_eq]
      exact majority_tied (hproject project) (s.signatures_perm project) (t.signatures_perm project)
  | projectModel project =>
    refine ⟨h, ?_⟩
    simp only [Store.serve, Agree, projectModel_eq]
    exact majority_tied (hproject project) (s.signatures_perm project) (t.signatures_perm project)
  | clear project =>
    constructor
    · exact h.filtered _ _ ⟨entries_clear s project, rows_clear s project, keeps_clear s project⟩
        ⟨entries_clear t project, rows_clear t project, keeps_clear t project⟩
    · simp only [Store.serve, Agree, count_clear, (hproject project).length_eq]
  | projectRecords project =>
    refine ⟨h, ?_⟩
    simp only [Store.serve, Agree, h.projectRecords_eq]
  | tick now =>
    refine ⟨h.filtered (fun _ => true) (fun _ => true) ?_ ?_, rfl⟩
    · simp [Store.serve, keeps_atTime]
    · simp [Store.serve, keeps_atTime]

/-- Alike they stay over any requests. -/
theorem Twins.after (h : Twins keys s t) (hkeys : Set.InjOn (fun k : String × String => fileId k.1 k.2) keys)
    {requests : List Request} (hproper : ∀ q ∈ requests, q.Proper keys) :
    Twins keys (s.after requests) (t.after requests) := by
  induction requests generalizing s t with
  | nil => exact h
  | cons q requests ih =>
    have hstep := h.serve hkeys (hproper q List.mem_cons_self)
    exact ih hstep.1 fun p hp => hproper p (List.mem_cons_of_mem _ hp)

/-- **Interchange**: after any requests that both kinds of store were sent from the start, with the same limit, they
give the same answer to the next one. -/
theorem interchangeable (hkeys : Set.InjOn (fun k : String × String => fileId k.1 k.2) keys) (limit : Option Nat)
    {requests : List Request} (hproper : ∀ q ∈ requests, q.Proper keys) (hq : q.Proper keys) :
    let s := (memory { limit }).after requests
    let t := (table { limit }).after requests
    s.Agree q (s.serve q).2 (t.serve q).2 :=
  (((twins_empty limit).after hkeys hproper).serve hkeys hq).2

/-- The entry of a small file. -/
def note : FileEntry where
  id := fileId "p" "a.md"
  project := "p"
  path := "a.md"
  hash := "h"
  language := "markdown"
  size := 5
  lineCount := 1
  modifiedMs := 0

/-- Its only record, in a vector of some length. -/
def noteRecord (dimensions : Nat) : Record where
  id := chunkId "p" "a.md" 0
  project := "p"
  fileId := fileId "p" "a.md"
  path := "a.md"
  index := 0
  content := "hello"
  vector := .replicate dimensions .zero
  dimensions
  format := "f32"
  provider := "local"
  hash := "h"
  startLine := 1
  endLine := 1
  symbolName := none
  symbolType := none
  language := "markdown"

theorem proper_note : note.Proper {("p", "a.md")} :=
  ⟨rfl, rfl, by decide, by decide, by decide⟩

theorem proper_noteRecord {dimensions : Nat} (h : dimensions < 2 ^ 63) : (noteRecord dimensions).Proper :=
  ⟨rfl, rfl, Array.size_replicate, by simp [noteRecord], h, by simp [noteRecord], by simp [noteRecord]⟩

/-- The record is written twice, and a third time with more dimensions than the stores admit. -/
theorem interchangeable_note :
    let requests : List Request := [.putFile note, .put (noteRecord 1), .put (noteRecord 2), .put (noteRecord 3)]
    let s := (memory { limit := some 2 }).after requests
    let t := (table { limit := some 2 }).after requests
    (∀ q ∈ requests, q.Proper {("p", "a.md")}) ∧
      s.Agree (.projectRecords "p") (s.serve (.projectRecords "p")).2 (t.serve (.projectRecords "p")).2 := by
  have hproper : ∀ q ∈ ([.putFile note, .put (noteRecord 1), .put (noteRecord 2), .put (noteRecord 3)] : List Request),
      q.Proper {("p", "a.md")} := by
    simp only [List.forall_mem_cons, Request.Proper]
    exact ⟨proper_note, proper_noteRecord (by decide), proper_noteRecord (by decide), proper_noteRecord (by decide),
      nofun⟩
  exact ⟨hproper, interchangeable (Set.injOn_singleton _ _) (some 2) hproper trivial⟩

end Store

end CodeIndex
