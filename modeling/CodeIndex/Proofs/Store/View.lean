import CodeIndex.Store.Basic
import Mathlib.Data.List.Nodup
import Mathlib.Data.List.Perm.Basic
import Mathlib.Data.String.Basic

/-!
Both kinds of store as the entries and the records that they hold. Vectors come back from their bytes bit for bit,
so what an operation does can be said of these two lists, whatever the kind.
-/

namespace CodeIndex

open Number CodeIndex.Embedding

section Upsert

variable {α : Type} {key : α → String} {x : α} {xs : List α} {keep : α → Bool}

/-- What has a new key comes last. -/
theorem upsert_new (h : ∀ y ∈ xs, key y ≠ key x) : upsert key x xs = xs ++ [x] := by
  have hany : xs.any (key · == key x) = false := List.any_eq_false.2 fun y hy => by simpa using h y hy
  rw [upsert, hany]
  rfl

/-- What is put takes the place of what has its key, or comes last. -/
theorem upsert_perm (hn : (xs.map key).Nodup) :
    (upsert key x xs).Perm (x :: xs.filter (key · != key x)) := by
  unfold upsert
  split
  · rename_i h
    induction xs with
    | nil => simp at h
    | cons y xs ih =>
      rw [List.map_cons] at hn
      obtain ⟨hy, hn⟩ := List.nodup_cons.1 hn
      by_cases he : key y = key x
      · have hf : xs.filter (key · != key x) = xs := List.filter_eq_self.2 fun z hz =>
          bne_iff_ne.2 fun hid => hy (he ▸ hid ▸ List.mem_map_of_mem hz)
        have hm : (xs.map fun z => if key z == key x then x else z) = xs :=
          (List.map_congr_left fun z hz => if_neg (by
            have hne : key z ≠ key x := fun hid => hy (he ▸ hid ▸ List.mem_map_of_mem hz)
            simpa using hne)).trans (List.map_id xs)
        rw [List.map_cons, if_pos (by simpa using he), hm, List.filter_cons_of_neg (by simpa using he), hf]
      · have hany : xs.any (key · == key x) = true := by
          simpa [List.any_cons, he] using h
        rw [List.map_cons, if_neg (by simpa using he), List.filter_cons_of_pos (by simpa using he)]
        exact ((ih hn hany).cons y).trans (.swap x y _)
  · rename_i h
    have hf : xs.filter (key · != key x) = xs := List.filter_eq_self.2 fun z hz => bne_iff_ne.2 fun hid =>
      h (List.any_eq_true.2 ⟨z, hz, by simpa using hid⟩)
    rw [hf]
    exact List.perm_append_singleton x xs

/-- Edits that leave alone what is kept, and turn nothing else into it. -/
theorem filter_map_edit {edit : α → α}
    (h : ∀ y ∈ xs, keep (edit y) = keep y ∧ (keep y = true → edit y = y)) :
    (xs.map edit).filter keep = xs.filter keep := by
  induction xs with
  | nil => rfl
  | cons y xs ih =>
    obtain ⟨hkeep, hsame⟩ := h y List.mem_cons_self
    rw [List.map_cons, List.filter_cons, List.filter_cons, ih fun z hz => h z (List.mem_cons_of_mem y hz), hkeep]
    split
    · rename_i hy
      rw [hsame hy]
    · rfl

/-- Putting what is not kept leaves what is kept, if none of that has its key. -/
theorem filter_upsert (hx : keep x = false)
    (h : ∀ y ∈ xs, keep y = true → key y ≠ key x) : (upsert key x xs).filter keep = xs.filter keep := by
  unfold upsert
  split
  · refine filter_map_edit fun y hy => ?_
    by_cases hk : key y = key x
    · have hkeep : keep y = false := by
        rw [← Bool.not_eq_true]
        exact fun hkeep => h y hy hkeep hk
      simp [hk, hx, hkeep]
    · simp [hk]
  · simp [List.filter_append, hx]

end Upsert

namespace TableStore

theorem ofBytes_bytesOf (x : UInt32) :
    x.toUInt8.toUInt32 ||| ((x >>> 8).toUInt8.toUInt32 <<< 8) ||| ((x >>> 16).toUInt8.toUInt32 <<< 16) |||
      ((x >>> 24).toUInt8.toUInt32 <<< 24) = x := by
  apply UInt32.toBitVec_inj.1
  simp only [UInt32.toBitVec_or, UInt8.toBitVec_toUInt32, UInt32.toBitVec_toUInt8, UInt32.toBitVec_shiftLeft,
    UInt32.toBitVec_shiftRight, UInt32.toBitVec_ofNat]
  ext i hi
  rw [← BitVec.getLsbD_eq_getElem hi, ← BitVec.getLsbD_eq_getElem hi]
  -- each bit comes from the byte that its place falls into
  by_cases h8 : i < 8
  · simp [h8, show i < 16 by omega, show i < 24 by omega, hi]
  by_cases h16 : i < 16
  · simp [h8, h16, show i < 24 by omega, show i - 8 < 8 by omega, show 8 + (i - 8) = i by omega, hi]
  by_cases h24 : i < 24
  · simp [h8, h16, h24, show ¬i - 8 < 8 by omega, show i - 16 < 8 by omega, show 16 + (i - 16) = i by omega, hi]
  · simp [h8, h16, h24, show ¬i - 8 < 8 by omega, show ¬i - 16 < 8 by omega, show i - 24 < 8 by omega,
      show 24 + (i - 24) = i by omega, hi]

theorem decodeList_encode (xs out : List Single) : decodeList out (xs.flatMap bytesOf) = out.reverse ++ xs := by
  induction xs generalizing out with
  | nil => simp [decodeList]
  | cons x xs ih =>
    rw [List.flatMap_cons]
    simp only [bytesOf, List.cons_append, List.nil_append, decodeList, ofBytes_bytesOf]
    rw [ih, List.reverse_cons, List.append_assoc, List.singleton_append]

@[simp] theorem decode_encode (v : Vec) : decode (encode v) = v := by
  rw [decode, encode, decodeList_encode, List.reverse_nil, List.nil_append, Array.toArray_toList]

/-- A row as the record that it holds. -/
def view (row : Row) : Record := { row.record with vector := decode row.bytes }

/-- The row of a record holds it. -/
@[simp] theorem view_row (r : Record) (createdAt : Nat) :
    view ⟨{ r with vector := #[] }, encode r.vector, createdAt⟩ = r := by
  rw [view, decode_encode]

/-- Rows whose vectors are as long as they say are read back as the records that they hold. -/
theorem mapM_ofRow {rows : List Row}
    (h : ∀ row ∈ rows, (view row).vector.size = (view row).dimensions) :
    rows.mapM ofRow = .ok (rows.map view) := by
  induction rows with
  | nil => rfl
  | cons row rows ih =>
    have hrow : ofRow row = .ok (view row) := if_pos (h row List.mem_cons_self)
    rw [List.mapM_cons, hrow, ih fun row hm => h row (List.mem_cons_of_mem _ hm)]
    rfl

/-- Every record that is read back is that of a row. -/
theorem mem_of_mapM_ofRow {rows : List Row} {rs : List Record} {r : Record}
    (h : rows.mapM ofRow = .ok rs) (hr : r ∈ rs) : ∃ row ∈ rows, view row = r := by
  induction rows generalizing rs with
  | nil =>
    cases h
    cases hr
  | cons row rows ih =>
    rw [List.mapM_cons] at h
    simp only [bind, Except.bind, pure, Except.pure] at h
    split at h
    · cases h
    · rename_i q hq
      split at h
      · cases h
      · rename_i qs hqs
        cases h
        obtain rfl | hr := List.mem_cons.1 hr
        · refine ⟨row, List.mem_cons_self, ?_⟩
          unfold ofRow at hq
          dsimp only at hq
          split at hq
          · exact Except.ok.inj hq
          · cases hq
        · obtain ⟨row', hmem, hv⟩ := ih hqs hr
          exact ⟨row', List.mem_cons_of_mem row hmem, hv⟩

end TableStore

namespace Store

variable {s s' : Store} {project id : String}

def entries : Store → List FileEntry
  | memory s => s.files
  | table s => s.files

def rows : Store → List Record
  | memory s => s.records
  | table s => s.embeddings.map TableStore.view

theorem rows_filter (t : TableStore) (p : Record → Bool) :
    (table t).rows.filter p = (t.embeddings.filter (p ∘ TableStore.view)).map TableStore.view := List.filter_map

/-- What no operation changes: whether numbers have a largest, and the longest vectors that are let in. -/
structure Settings where
  bounded : Bool
  limit : Option Nat

def settings : Store → Settings
  | memory s => ⟨false, s.limit⟩
  | table s => ⟨true, s.limit⟩

/-- Numbers that a column can hold. -/
def Settings.Holds (σ : Settings) (n : Nat) : Prop := σ.bounded = true → n < 2 ^ 63

/-- Lengths of vectors that records may have. -/
structure Settings.Admits (σ : Settings) (dimensions : Nat) : Prop where
  holds : σ.Holds dimensions
  limit : ∀ limit, σ.limit = some limit → dimensions ≤ limit

/-- A record that a store with these settings can hold. -/
structure Settings.Fits (σ : Settings) (r : Record) : Prop where
  dimensions : σ.Admits r.dimensions
  index : σ.Holds r.index
  startLine : σ.Holds r.startLine
  endLine : σ.Holds r.endLine

/-- The widest vectors announced have a length that a column can hold. -/
def Sane : Store → Prop
  | memory _ => True
  | table t => t.widest < 2 ^ 63

/-- What no operation on entries and records changes. -/
structure Keeps (s s' : Store) : Prop where
  settings : s'.settings = s.settings
  sane : s.Sane → s'.Sane

theorem Keeps.refl (s : Store) : s.Keeps s := ⟨rfl, fun h => h⟩

theorem Keeps.trans {s s' s'' : Store} (h : s.Keeps s') (k : s'.Keeps s'') : s.Keeps s'' :=
  ⟨k.settings.trans h.settings, fun hs => k.sane (h.sane hs)⟩

theorem column_ok {n : Nat} (h : n < 2 ^ 63) : TableStore.column n = .ok n := if_pos h

theorem column_wide {n : Nat} (h : ¬n < 2 ^ 63) : TableStore.column n = .error .integerRange := if_neg h

theorem column_eq {n m : Nat} (h : TableStore.column n = .ok m) : m = n := by
  by_cases hlt : n < 2 ^ 63
  · rw [column_ok hlt] at h
    exact (Except.ok.inj h).symm
  · rw [column_wide hlt] at h
    cases h

theorem column_lt {n m : Nat} (h : TableStore.column n = .ok m) : n < 2 ^ 63 := by
  by_contra hn
  rw [column_wide hn] at h
  cases h

theorem column_error {n : Nat} {e : StoreError} (h : TableStore.column n = .error e) : e = .integerRange := by
  unfold TableStore.column at h
  split at h <;> cases h
  rfl

theorem checkLimit_memory {m : MemoryStore} {dimensions : Nat}
    (h : ∀ limit, m.limit = some limit → dimensions ≤ limit) : m.checkLimit dimensions = .ok () := by
  unfold MemoryStore.checkLimit
  cases hl : m.limit with
  | none => rfl
  | some limit => exact if_neg (Nat.not_lt.2 (h limit hl))

theorem checkLimit_table {t : TableStore} {dimensions : Nat}
    (h : ∀ limit, t.limit = some limit → dimensions ≤ limit) : t.checkLimit dimensions = .ok () := by
  unfold TableStore.checkLimit
  cases hl : t.limit with
  | none => rfl
  | some limit => exact if_neg (Nat.not_lt.2 (h limit hl))

theorem put_within {r : Record} (h : s.settings.Fits r) : ∃ s', s.put r = .ok s' := by
  cases s with
  | memory m =>
    simp only [put, MemoryStore.put, checkLimit_memory h.dimensions.limit]
    exact ⟨_, rfl⟩
  | table t =>
    simp only [put, TableStore.put, checkLimit_table h.dimensions.limit, column_ok (h.index rfl),
      column_ok (h.dimensions.holds rfl), column_ok (h.startLine rfl), column_ok (h.endLine rfl)]
    exact ⟨_, rfl⟩

/-- What a record that is put does to a store of either kind. -/
theorem put_cases {r : Record} (h : s.put r = .ok s') :
    (∃ m, s = memory m ∧ s' = memory { m.touch r.project with
      records := upsert Record.id r m.records, widest := max m.widest r.dimensions }) ∨
    ∃ t, s = table t ∧ s' = table { t with
      embeddings := t.embeddings.filter (·.record.id != r.id) ++
        [⟨{ r with vector := #[] }, TableStore.encode r.vector, t.now⟩] } := by
  cases s with
  | memory m =>
    simp only [put, MemoryStore.put] at h
    cases hc : m.checkLimit r.dimensions with
    | error e =>
      rw [hc] at h
      cases h
    | ok u =>
      rw [hc] at h
      cases h
      exact .inl ⟨m, rfl, rfl⟩
  | table t =>
    cases hp : t.put r with
    | error e =>
      simp only [put, hp] at h
      cases h
    | ok t' =>
      simp only [put, hp] at h
      cases h
      simp only [TableStore.put, bind, Except.bind] at hp
      repeat' split at hp
      all_goals cases hp
      rename_i _ _ _ hi _ _ hd _ _ hs _ _ he
      rw [column_eq hi, column_eq hd, column_eq hs, column_eq he]
      exact .inr ⟨t, rfl, rfl⟩

theorem rows_put {r : Record} (h : s.put r = .ok s') :
    s'.rows = upsert Record.id r s.rows ∨ s'.rows = s.rows.filter (·.id != r.id) ++ [r] := by
  obtain ⟨m, rfl, rfl⟩ | ⟨t, rfl, rfl⟩ := put_cases h
  · exact .inl rfl
  · right
    rw [rows_filter, rows, List.map_append, List.map_singleton, TableStore.view_row]
    rfl

theorem keeps_put {r : Record} (h : s.put r = .ok s') : s.Keeps s' := by
  obtain ⟨m, rfl, rfl⟩ | ⟨t, rfl, rfl⟩ := put_cases h <;> exact ⟨rfl, fun h => h⟩

theorem entries_put {r : Record} (h : s.put r = .ok s') : s'.entries = s.entries := by
  obtain ⟨m, rfl, rfl⟩ | ⟨t, rfl, rfl⟩ := put_cases h <;> rfl

/-- A record with a new identifier comes last. -/
theorem put_new {r : Record} (hid : ∀ q ∈ s.rows, q.id ≠ r.id) (h : s.settings.Fits r) :
    ∃ s', s.put r = .ok s' ∧ s'.rows = s.rows ++ [r] ∧ s'.entries = s.entries ∧ s.Keeps s' := by
  obtain ⟨s', hput⟩ := put_within h
  refine ⟨s', hput, ?_, entries_put hput, keeps_put hput⟩
  obtain hrows | hrows := rows_put hput
  · rw [hrows, upsert_new hid]
  · rw [hrows, List.filter_eq_self.2 fun q hq => bne_iff_ne.2 (hid q hq)]

/-- An entry that is put changes nothing but the entries. -/
theorem putFile_cases {f : FileEntry} (h : s.putFile f = .ok s') :
    (∃ m, s = memory m ∧ s' = memory (m.putFile f)) ∨
      ∃ t files updatedAt, s = table t ∧ s' = table { t with files, updatedAt } := by
  cases s with
  | memory m =>
    cases h
    exact .inl ⟨m, rfl, rfl⟩
  | table t =>
    cases hp : t.putFile f with
    | error e =>
      simp only [putFile, hp] at h
      cases h
    | ok t' =>
      simp only [putFile, hp] at h
      cases h
      simp only [TableStore.putFile, bind, Except.bind] at hp
      repeat' split at hp
      all_goals cases hp
      all_goals exact .inr ⟨t, _, _, rfl, rfl⟩

theorem keeps_putFile {f : FileEntry} (h : s.putFile f = .ok s') : s.Keeps s' := by
  obtain ⟨m, rfl, rfl⟩ | ⟨t, files, updatedAt, rfl, rfl⟩ := putFile_cases h <;> exact ⟨rfl, fun h => h⟩

theorem rows_putFile {f : FileEntry} (h : s.putFile f = .ok s') : s'.rows = s.rows := by
  obtain ⟨m, rfl, rfl⟩ | ⟨t, files, updatedAt, rfl, rfl⟩ := putFile_cases h <;> rfl

theorem rows_deleteRecords (s : Store) (id : String) :
    (s.deleteRecords id).1.rows = s.rows.filter (·.fileId != id) := by
  cases s with
  | memory m => rfl
  | table t =>
    rw [rows_filter]
    rfl

@[simp] theorem entries_deleteRecords (s : Store) (id : String) : (s.deleteRecords id).1.entries = s.entries := by
  cases s <;> rfl

theorem keeps_deleteRecords (s : Store) (id : String) : s.Keeps (s.deleteRecords id).1 := by
  cases s <;> exact ⟨rfl, fun h => h⟩

theorem deleteFile_memory (m : MemoryStore) (id : String) :
    ∃ touched, m.deleteFile id =
      { m with files := m.files.filter (·.id != id), records := m.records.filter (·.fileId != id), touched } := by
  unfold MemoryStore.deleteFile
  split <;> exact ⟨_, rfl⟩

theorem rows_deleteFile (s : Store) (id : String) : (s.deleteFile id).rows = s.rows.filter (·.fileId != id) := by
  cases s with
  | memory m =>
    obtain ⟨touched, he⟩ := deleteFile_memory m id
    rw [deleteFile, he]
    rfl
  | table t =>
    rw [rows_filter]
    rfl

theorem entries_deleteFile (s : Store) (id : String) : (s.deleteFile id).entries = s.entries.filter (·.id != id) := by
  cases s with
  | memory m =>
    obtain ⟨touched, he⟩ := deleteFile_memory m id
    rw [deleteFile, he]
    rfl
  | table t => rfl

theorem keeps_deleteFile (s : Store) (id : String) : s.Keeps (s.deleteFile id) := by
  cases s with
  | memory m =>
    obtain ⟨touched, he⟩ := deleteFile_memory m id
    rw [deleteFile, he]
    exact ⟨rfl, fun h => h⟩
  | table t => exact ⟨rfl, fun h => h⟩

theorem rows_clear (s : Store) (project : String) :
    (s.clear project).1.rows = s.rows.filter (·.project != project) := by
  cases s with
  | memory m => rfl
  | table t =>
    rw [rows_filter]
    rfl

theorem entries_clear (s : Store) (project : String) :
    (s.clear project).1.entries = s.entries.filter (·.project != project) := by
  cases s <;> rfl

theorem keeps_clear (s : Store) (project : String) : s.Keeps (s.clear project).1 := by
  cases s <;> exact ⟨rfl, fun h => h⟩

@[simp] theorem rows_atTime (s : Store) (now : Nat) : (s.atTime now).rows = s.rows := by cases s <;> rfl

@[simp] theorem entries_atTime (s : Store) (now : Nat) : (s.atTime now).entries = s.entries := by cases s <;> rfl

theorem keeps_atTime (s : Store) (now : Nat) : s.Keeps (s.atTime now) := by cases s <;> exact ⟨rfl, fun h => h⟩

/-- One key for each, also with the new one in front of those that stay. -/
theorem nodup_replaced {α : Type} {key : α → String} {xs : List α} (x : α) (hn : (xs.map key).Nodup) :
    ((x :: xs.filter (key · != key x)).map key).Nodup := by
  rw [List.map_cons, List.nodup_cons]
  constructor
  · intro hm
    obtain ⟨y, hy, hid⟩ := List.mem_map.1 hm
    exact bne_iff_ne.1 (List.mem_filter.1 hy).2 hid
  · exact hn.sublist (List.filter_sublist.map _)

/-- The entries after one is put: it takes the place of the one with its identifier, or comes last. -/
def withEntry (f : FileEntry) (es : List FileEntry) : List FileEntry := upsert FileEntry.id f es

theorem withEntry_perm {f : FileEntry} {es : List FileEntry} (hn : (es.map (·.id)).Nodup) :
    (withEntry f es).Perm (f :: es.filter (·.id != f.id)) := upsert_perm hn

/-- An entry is put if its path is in its normal form and its identifier and its key are of one mind. -/
theorem putFile_ok {f : FileEntry} (hp : normalizePath f.path = f.path)
    (hkey : ∀ g ∈ s.entries, g.id = f.id ↔ g.project = f.project ∧ g.path = f.path)
    (hs : s.settings.Holds f.size) (hl : s.settings.Holds f.lineCount) :
    ∃ s', s.putFile f = .ok s' ∧ s'.entries = withEntry f s.entries ∧ s'.rows = s.rows ∧ s.Keeps s' := by
  cases s with
  | memory m => exact ⟨_, rfl, rfl, rfl, rfl, fun h => h⟩
  | table t =>
    by_cases hany : t.files.any (FileEntry.id · == f.id) = true
    · refine ⟨table { t with
        updatedAt := upsert Prod.fst (f.id, t.now) t.updatedAt
        files := t.files.map fun g => if g.id == f.id then
          { g with hash := f.hash, language := f.language, size := f.size, lineCount := f.lineCount,
                   modifiedMs := f.modifiedMs } else g }, ?_, ?_, rfl, rfl, fun h => h⟩
      · simp only [putFile, TableStore.putFile, column_ok (hs rfl), column_ok (hl rfl), hany]
        rfl
      simp only [entries, withEntry, upsert, hany, if_true]
      refine List.map_congr_left fun g hg => ?_
      by_cases hid : g.id = f.id
      · obtain ⟨hproject, hpath⟩ := (hkey g hg).1 hid
        rw [if_pos (by simpa using hid), if_pos (by simpa using hid), hproject, hpath, hid]
      · rw [if_neg (by simpa using hid), if_neg (by simpa using hid)]
    · have hnone : (t.files.any fun g => g.project == f.project && g.path == f.path) = false := by
        rw [List.any_eq_false]
        intro g hg hh
        simp only [Bool.and_eq_true, beq_iff_eq] at hh
        exact hany (List.any_eq_true.2 ⟨g, hg, by simpa using (hkey g hg).2 hh⟩)
      refine ⟨table { t with updatedAt := upsert Prod.fst (f.id, t.now) t.updatedAt, files := t.files ++ [f] }, ?_, ?_, rfl,
        rfl, fun h => h⟩
      · simp only [putFile, TableStore.putFile, column_ok (hs rfl), column_ok (hl rfl), hp, hany, hnone]
        rfl
      · simp only [entries, withEntry, upsert, hany]
        rfl

theorem limit_of_check {limit : Option Nat} {dimensions : Nat}
    (h : (match limit with
      | some limit => if limit < dimensions then .error (.dimensionUnsupported dimensions limit) else .ok ()
      | none => .ok () : Except StoreError Unit) = .ok ()) : ∀ l, limit = some l → dimensions ≤ l := by
  rintro l rfl
  by_contra hlt
  simp only [if_pos (Nat.lt_of_not_le hlt)] at h
  cases h

theorem widen_spec {dimensions : Nat} (h : s.widen dimensions = .ok s') (hs : s.Sane) :
    s'.rows = s.rows ∧ s'.entries = s.entries ∧ s.Keeps s' ∧ s.settings.Admits dimensions := by
  cases s with
  | memory m =>
    cases hc : m.checkLimit dimensions with
    | error e =>
      simp only [widen, MemoryStore.widen, hc] at h
      cases h
    | ok u =>
      simp only [widen, MemoryStore.widen, hc] at h
      cases h
      exact ⟨rfl, rfl, ⟨rfl, fun _ => trivial⟩, nofun, limit_of_check hc⟩
  | table t =>
    cases hc : t.checkLimit dimensions with
    | error e =>
      simp only [widen, TableStore.widen, hc] at h
      cases h
    | ok u =>
      have hlimit := limit_of_check hc
      by_cases hw : t.widest < dimensions
      · by_cases hd : dimensions < 2 ^ 63
        · simp only [widen, TableStore.widen, hc, hw, column_ok hd] at h
          cases h
          exact ⟨rfl, rfl, ⟨rfl, fun _ => hd⟩, fun _ => hd, hlimit⟩
        · simp only [widen, TableStore.widen, hc, hw, column_wide hd] at h
          cases h
      · simp only [widen, TableStore.widen, hc, hw] at h
        cases h
        exact ⟨rfl, rfl, .refl _, fun _ => Nat.lt_of_le_of_lt (Nat.le_of_not_lt hw) hs, hlimit⟩

theorem getFile_eq (s : Store) (project path : String) :
    s.getFile project path = s.entries.find? fun f => f.project == project && f.path == normalizePath path := by
  cases s <;> rfl

theorem listFiles_eq (s : Store) (project : String) :
    s.listFiles project = byPath (s.entries.filter (·.project == project)) := by
  cases s <;> rfl

theorem tally_view (rows : List TableStore.Row) :
    tally (rows.map TableStore.view) = tally (rows.map (·.record)) := by
  rw [tally, tally, List.foldl_map, List.foldl_map]
  rfl

/-- The counts of a project's signatures, in the order in which a store of either kind has them. -/
def signatures (project : String) : Store → List (Signature × Nat)
  | memory s => tally (s.recordsOf project)
  | table s => s.signatures project

theorem signatures_perm (s : Store) (project : String) :
    (s.signatures project).Perm (tally (s.rows.filter (·.project == project))) := by
  cases s with
  | memory m => exact .refl _
  | table t =>
    rw [rows_filter, tally_view]
    exact List.mergeSort_perm ..

theorem checkModel_eq (s : Store) (project : String) (current : Signature) :
    s.checkModel project current = modelChange (s.signatures project) current := by
  cases s <;> rfl

theorem projectModel_eq (s : Store) (project : String) :
    s.projectModel project = majoritySignature (s.signatures project) := by
  cases s <;> rfl

/-- Counts with one record more. -/
def counted (counts : List (Signature × Nat)) (r : Record) : List (Signature × Nat) :=
  if counts.any (·.1 == r.signature) then counts.map fun c => if c.1 == r.signature then (c.1, c.2 + 1) else c
  else counts ++ [(r.signature, 1)]

theorem tally_eq (records : List Record) : tally records = records.foldl counted [] := rfl

/-- The signatures that are counted: a new one comes last. -/
theorem keys_counted (counts : List (Signature × Nat)) (r : Record) :
    (counted counts r).map (·.1) =
      if r.signature ∈ counts.map (·.1) then counts.map (·.1) else counts.map (·.1) ++ [r.signature] := by
  have hany : counts.any (·.1 == r.signature) = true ↔ r.signature ∈ counts.map (·.1) := by
    rw [List.any_eq_true, List.mem_map]
    exact exists_congr fun c => and_congr_right fun _ => beq_iff_eq
  unfold counted
  by_cases h : r.signature ∈ counts.map (·.1)
  · rw [if_pos (hany.2 h), if_pos h, List.map_map]
    refine List.map_congr_left fun c _ => ?_
    simp only [Function.comp]
    split <;> rfl
  · rw [if_neg (mt hany.1 h), if_neg h, List.map_append, List.map_singleton]

theorem mem_counted {counts : List (Signature × Nat)} {r : Record} {signature : Signature} :
    signature ∈ (counted counts r).map (·.1) ↔ signature ∈ counts.map (·.1) ∨ r.signature = signature := by
  rw [keys_counted]
  split
  · rename_i hm
    exact ⟨.inl, fun h => h.elim id fun he => he ▸ hm⟩
  · rw [List.mem_append, List.mem_singleton, eq_comm (a := signature)]

/-- Each signature is counted in one place. -/
theorem nodup_tally (records : List Record) : ((tally records).map (·.1)).Nodup := by
  suffices h : ∀ counts : List (Signature × Nat), (counts.map (·.1)).Nodup →
      ((records.foldl counted counts).map (·.1)).Nodup from h [] List.nodup_nil
  induction records with
  | nil => exact fun _ h => h
  | cons r records ih =>
    intro counts h
    refine ih _ ?_
    rw [keys_counted]
    split
    · exact h
    · rename_i hm
      exact h.append (List.nodup_singleton _) (by simpa using hm)

theorem mem_foldl_counted {records : List Record} {counts : List (Signature × Nat)} {signature : Signature} :
    signature ∈ (records.foldl counted counts).map (·.1) ↔
      signature ∈ counts.map (·.1) ∨ ∃ r ∈ records, r.signature = signature := by
  induction records generalizing counts with
  | nil => simp
  | cons r records ih => rw [List.foldl_cons, ih, mem_counted, List.exists_mem_cons_iff, or_assoc]

theorem mem_tally {records : List Record} {signature : Signature} :
    (∃ n, (signature, n) ∈ tally records) ↔ ∃ r ∈ records, r.signature = signature := by
  have h : signature ∈ (tally records).map (·.1) ↔ _ ∨ ∃ r ∈ records, r.signature = signature := mem_foldl_counted
  simpa using h

/-- Of several models at most one is the current. -/
theorem exists_ne_of_tally {records : List Record} (h : 1 < (tally records).length) (current : Signature) :
    ∃ c ∈ tally records, c.1 ≠ current := by
  have hn := nodup_tally records
  match he : tally records with
  | [] | [_] => simp [he] at h
  | a :: b :: rest =>
    rw [he] at hn
    have hab : a.1 ≠ b.1 := fun hab => (List.nodup_cons.1 hn).1 (List.mem_map.2 ⟨b, List.mem_cons_self, hab.symm⟩)
    by_cases ha : a.1 = current
    · exact ⟨b, by simp, fun hb => hab (ha.trans hb.symm)⟩
    · exact ⟨a, by simp, ha⟩

/-- A project's records are of another model just when one of them is. -/
theorem changed_iff {current : Signature} :
    (s.checkModel project current).changed = true ↔
      ∃ r ∈ s.rows, r.project = project ∧ r.signature ≠ current := by
  have hperm := s.signatures_perm project
  rw [checkModel_eq, modelChange, hperm.length_eq]
  simp only [Bool.or_eq_true, decide_eq_true_eq, List.any_eq_true, bne_iff_ne, hperm.mem_iff]
  constructor
  · intro h
    obtain ⟨⟨signature, n⟩, hm, hne⟩ := h.elim (fun hl => exists_ne_of_tally hl current) id
    obtain ⟨r, hr, rfl⟩ := mem_tally.1 ⟨n, hm⟩
    obtain ⟨hr, hp⟩ := List.mem_filter.1 hr
    exact ⟨r, hr, beq_iff_eq.1 hp, hne⟩
  · rintro ⟨r, hr, hp, hne⟩
    have hf : r ∈ s.rows.filter (·.project == project) := List.mem_filter.2 ⟨hr, by simpa using hp⟩
    obtain ⟨n, hm⟩ := mem_tally.2 ⟨r, hf, rfl⟩
    exact .inr ⟨_, hm, hne⟩

/-- Reading back fails on no record whose vector is as long as it says. -/
theorem projectRecords_eq (h : ∀ r ∈ s.rows, r.vector.size = r.dimensions) (project : String) :
    s.projectRecords project = .ok (byPosition (s.rows.filter (·.project == project))) := by
  cases s with
  | memory m => rfl
  | table t =>
    rw [rows_filter]
    simp only [projectRecords, TableStore.projectRecords]
    rw [TableStore.mapM_ofRow, byPosition]
    · exact congrArg Except.ok (List.map_mergeSort fun _ _ _ _ => rfl)
    · intro row hm
      exact h _ (List.mem_map_of_mem (List.mem_of_mem_filter (List.mem_mergeSort.1 hm)))

end Store

end CodeIndex
