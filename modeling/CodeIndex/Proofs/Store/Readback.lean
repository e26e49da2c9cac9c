import CodeIndex.Proofs.Store.Interchange

/-!
What is stored is read back. An entry is found under every spelling of its path if it is kept under the normal one: a
table brings the path into that form, while a store in memory keeps it as it comes. A table reads a record back as it
was put, to the last bit of its vector, and leaves all others as they were; a record that does not fit leaves the tables
as they were.
-/

namespace CodeIndex

open CodeIndex.Embedding

/-- A record among those read back of a project: it is the only one under its identifier, if it is the project's, and
the others are those read back before. -/
structure ReadAs (r : Record) (project : String) (before after : List Record) : Prop where
  own : after.filter (·.id == r.id) = if r.project = project then [r] else []
  others : after.filter (·.id != r.id) = before.filter (·.id != r.id)

namespace Store

variable {s s' : Store} {t : TableStore} {f : FileEntry} {r : Record} {project path : String}

/-- An entry as a store of either kind keeps it. -/
def kept (f : FileEntry) : Store → FileEntry
  | memory _ => f
  | table _ => { f with path := normalizePath f.path }

/-- An entry with a new identifier comes last. -/
theorem entries_putFile_new (hid : ∀ g ∈ s.entries, g.id ≠ f.id) (h : s.putFile f = .ok s') :
    s'.entries = s.entries ++ [s.kept f] := by
  cases s with
  | memory m =>
    cases h
    exact upsert_new hid
  | table t =>
    have hany : t.files.any (FileEntry.id · == f.id) = false :=
      List.any_eq_false.2 fun g hg => by simpa using hid g hg
    cases hput : t.putFile f with
    | error e =>
      simp only [putFile, hput] at h
      cases h
    | ok t' =>
      simp only [putFile, hput] at h
      cases h
      simp only [TableStore.putFile, hany, Bool.false_eq_true, if_false, bind, Except.bind] at hput
      repeat' split at hput
      all_goals cases hput
      rfl

/-- **Spellings**: a new entry, once put, is found under every spelling of its path. A table finds it always. A store in
memory finds it just when the path that it was put under has the normal form already. -/
theorem getFile_putFile (hnew : ∀ g ∈ s.entries, g.id ≠ f.id ∧ ¬(g.project = f.project ∧ g.path = normalizePath f.path))
    (hpath : normalizePath path = normalizePath f.path) (h : s.putFile f = .ok s') :
    s'.getFile f.project path =
      match s with
      | table _ => some { f with path := normalizePath f.path }
      | memory _ => if normalizePath f.path = f.path then some f else none := by
  have hearlier : (s.entries.find? fun g => g.project == f.project && g.path == normalizePath f.path) = none := by
    rw [List.find?_eq_none]
    intro g hg
    simpa using (hnew g hg).2
  rw [getFile_eq, entries_putFile_new (fun g hg => (hnew g hg).1) h, hpath, List.find?_append, hearlier,
    Option.none_or, List.find?_singleton]
  cases s with
  | table t => simp [kept]
  | memory m => simp only [kept, beq_self_eq_true, Bool.true_and, beq_iff_eq, eq_comm (a := f.path)]

/-- The entry of a small file, under another spelling of its path. -/
def dottedNote : FileEntry := { note with id := fileId "p" "./a.md", path := "./a.md" }

/-- A table finds it under the plain path, and a store in memory finds the plain one under spellings of its path. -/
theorem getFile_putFile_dotted :
    (∃ s', (table {}).putFile dottedNote = .ok s' ∧ s'.getFile "p" "a.md" = some { dottedNote with path := "a.md" }) ∧
      ∃ s', (memory {}).putFile note = .ok s' ∧ s'.getFile "p" ".\\a.md" = some note := by
  refine ⟨⟨_, rfl, ?_⟩, _, rfl, ?_⟩
  · exact getFile_putFile (s := table {}) (f := dottedNote) nofun (by decide) rfl
  · exact getFile_putFile (s := memory {}) (f := note) nofun (by decide) rfl

/-- A store in memory finds it under no spelling at all, not even the one that it was put under. -/
theorem dotted_lost :
    dottedNote.id = fileId dottedNote.project dottedNote.path ∧ normalizePath "a.md" = normalizePath dottedNote.path ∧
      ∃ s', (memory {}).putFile dottedNote = .ok s' ∧ s'.getFile "p" "a.md" = none ∧ s'.getFile "p" "./a.md" = none :=
  ⟨rfl, by decide, _, rfl, by decide, by decide⟩

/-- The rows of a table are all as long as they say. -/
def Readable (t : TableStore) : Prop := ∀ q ∈ (table t).rows, q.vector.size = q.dimensions

/-- A record that fits comes last, and those with its identifier are gone. -/
theorem put_fitting (hstored : Readable t) (hr : r.vector.size = r.dimensions) (h : (table t).settings.Fits r) :
    ∃ t', (table t).put r = .ok (table t') ∧ t' = { t with embeddings := t'.embeddings } ∧ Readable t' ∧
      (table t').rows = (table t).rows.filter (·.id != r.id) ++ [r] := by
  obtain ⟨s', hput⟩ := put_within h
  obtain ⟨m, hm, -⟩ | ⟨t₁, ht, rfl⟩ := put_cases hput
  · cases hm
  cases ht
  refine ⟨_, hput, rfl, fun q hq => ?_, ?_⟩
  · obtain ⟨row, hrow, rfl⟩ := List.mem_map.1 hq
    obtain hrow | hrow := List.mem_append.1 hrow
    · exact hstored _ (List.mem_map_of_mem (List.mem_of_mem_filter hrow))
    · rw [List.mem_singleton.1 hrow, TableStore.view_row]
      exact hr
  · rw [rows_filter, rows, List.map_append, List.map_singleton, TableStore.view_row]
    rfl

/-- What is read back of some records under some identifiers is what these records have under them. -/
theorem filter_byPosition_project (rs : List Record) (project : String) (p : Record → Bool) :
    (byPosition (rs.filter (·.project == project))).filter p =
      byPosition ((rs.filter p).filter (·.project == project)) := by
  -- the sort keeps the order of records in one place, so these can be chosen before it
  rw [byPosition_eq, byPosition_eq, filter_mergeSort_comm precedes_place.trans precedes_place.total,
    List.filter_filter, List.filter_filter]
  exact congrArg (List.mergeSort · Record.precedes) (List.filter_congr fun q _ => Bool.and_comm ..)

theorem byPosition_own (r : Record) (project : String) :
    byPosition ([r].filter (·.project == project)) = if r.project = project then [r] else [] := by
  by_cases hp : r.project = project
  · rw [if_pos hp, List.filter_cons_of_pos (by simpa using hp)]
    exact List.mergeSort_singleton r
  · rw [if_neg hp, List.filter_cons_of_neg (by simpa using hp)]
    exact List.mergeSort_nil

/-- Records with one more in the place of those with its identifier. -/
theorem filter_put (r : Record) (rs : List Record) :
    (rs.filter (·.id != r.id) ++ [r]).filter (·.id == r.id) = [r] ∧
      ∀ id, id ≠ r.id → (rs.filter (·.id != r.id) ++ [r]).filter (·.id == id) = rs.filter (·.id == id) := by
  constructor
  · have hnone : (rs.filter (·.id != r.id)).filter (·.id == r.id) = [] := by
      rw [List.filter_filter]
      exact List.filter_eq_nil_iff.2 fun q _ => by simp
    rw [List.filter_append, hnone, List.nil_append, List.filter_cons_of_pos (by simp)]
    rfl
  · intro id hid
    rw [List.filter_append, List.filter_cons_of_neg (by simpa using hid.symm), List.filter_nil, List.append_nil,
      List.filter_filter]
    refine List.filter_congr fun q _ => ?_
    by_cases hq : q.id = id
    · simp [hq, hid]
    · simp [hq]

/-- Records of a project in their order, before and after one is put. -/
theorem readAs_byPosition (r : Record) (project : String) (rs : List Record) :
    ReadAs r project (byPosition (rs.filter (·.project == project)))
      (byPosition ((rs.filter (·.id != r.id) ++ [r]).filter (·.project == project))) where
  own := by rw [filter_byPosition_project, (filter_put r rs).1, byPosition_own]
  others := by
    have hlast : [r].filter (·.id != r.id) = [] := by simp
    have htwice : (rs.filter (·.id != r.id)).filter (·.id != r.id) = rs.filter (·.id != r.id) := by
      rw [List.filter_filter]
      exact List.filter_congr fun q _ => Bool.and_self _
    rw [filter_byPosition_project, filter_byPosition_project, List.filter_append, hlast, List.append_nil, htwice]

theorem fits_of_put {t' : TableStore} (h : t.put r = .ok t') : (table t).settings.Fits r := by
  cases hc : t.checkLimit r.dimensions with
  | error e =>
    rw [TableStore.put, hc] at h
    cases h
  | ok u =>
    simp only [TableStore.put, hc, bind, Except.bind] at h
    repeat' split at h
    all_goals cases h
    rename_i hi _ _ hd _ _ hs _ _ he
    exact ⟨⟨fun _ => column_lt hd, limit_of_check hc⟩, fun _ => column_lt hi, fun _ => column_lt hs,
      fun _ => column_lt he⟩

/-- Within the limit nothing but a number that no column holds is a reason to refuse a record. -/
theorem put_error {e : StoreError} (hl : ∀ limit, t.limit = some limit → r.dimensions ≤ limit)
    (h : t.put r = .error e) : e = .integerRange := by
  simp only [TableStore.put, checkLimit_table hl, bind, Except.bind] at h
  repeat' split at h
  all_goals cases h
  all_goals exact column_error ‹_›

/-- A table refuses a record that does not fit: one that is too long for its limit for that, any other for a number that
no column holds. -/
theorem put_unfit (h : ¬(table t).settings.Fits r) :
    ∃ e, (table t).put r = .error e ∧
      (∀ limit, t.limit = some limit → limit < r.dimensions → e = .dimensionUnsupported r.dimensions limit) ∧
      ((∀ limit, t.limit = some limit → r.dimensions ≤ limit) → e = .integerRange) := by
  by_cases hl : ∀ limit, t.limit = some limit → r.dimensions ≤ limit
  · cases hput : t.put r with
    | ok t' => exact absurd (fits_of_put hput) h
    | error e =>
      refine ⟨e, by rw [put, hput]; rfl, fun limit he hd => absurd (hl limit he) (Nat.not_le.2 hd), fun _ => ?_⟩
      exact put_error hl hput
  · obtain ⟨limit, he, hd⟩ : ∃ limit, t.limit = some limit ∧ limit < r.dimensions := by simpa using hl
    refine ⟨_, put_beyond he hd, fun limit' he' _ => ?_, fun hl' => absurd hl' hl⟩
    cases he.symm.trans he'
    rfl

/-- A record that fits is read back as it was put, and all others as they were before. -/
theorem serve_put_fitting (hstored : Readable t) (hr : r.vector.size = r.dimensions) (h : (table t).settings.Fits r) :
    ∃ t', (table t).serve (.put r) = (table t', .done) ∧ t' = { t with embeddings := t'.embeddings } ∧ Readable t' ∧
      ∀ project, ∃ before after, (table t).projectRecords project = .ok before ∧
        (table t').projectRecords project = .ok after ∧ ReadAs r project before after := by
  obtain ⟨t', hput, hrest, hlong, hrows⟩ := put_fitting hstored hr h
  refine ⟨t', ?_, hrest, hlong, fun project =>
    ⟨_, _, projectRecords_eq hstored project, projectRecords_eq hlong project, ?_⟩⟩
  · rw [serve, hput]
    rfl
  · rw [hrows]
    exact readAs_byPosition r project (table t).rows

theorem serve_put_unfit (h : ¬(table t).settings.Fits r) :
    ∃ e, (table t).serve (.put r) = (table t, .refused e) ∧
      (∀ limit, t.limit = some limit → limit < r.dimensions → e = .dimensionUnsupported r.dimensions limit) ∧
      ((∀ limit, t.limit = some limit → r.dimensions ≤ limit) → e = .integerRange) := by
  obtain ⟨e, hput, hreason⟩ := put_unfit h
  refine ⟨e, ?_, hreason⟩
  rw [serve, hput]
  rfl

/-- **Round trip**: a table whose records are as long as they say takes any further such record if it is within the
limit and its numbers fit in columns. It is then read back as it was put, all other records as they were before, and
nothing else changes. Any other record is refused, and the tables are as before. -/
theorem put_roundTrip (hstored : Readable t) (hr : r.vector.size = r.dimensions) :
    ((table t).settings.Fits r → ∃ t', (table t).serve (.put r) = (table t', .done) ∧
        t' = { t with embeddings := t'.embeddings } ∧ Readable t' ∧
        ∀ project, ∃ before after, (table t).projectRecords project = .ok before ∧
          (table t').projectRecords project = .ok after ∧ ReadAs r project before after) ∧
      (¬(table t).settings.Fits r → ∃ e, (table t).serve (.put r) = (table t, .refused e) ∧
        (∀ limit, t.limit = some limit → limit < r.dimensions → e = .dimensionUnsupported r.dimensions limit) ∧
        ((∀ limit, t.limit = some limit → r.dimensions ≤ limit) → e = .integerRange)) :=
  ⟨serve_put_fitting hstored hr, serve_put_unfit⟩

/-- Records put one after the other do nothing to those under an identifier that none of them has that fits. -/
theorem rows_after_puts (hstored : Readable t) {rs : List Record} (hrs : ∀ q ∈ rs, q.vector.size = q.dimensions) :
    ∃ t', (table t).after (rs.map .put) = table t' ∧ (table t').settings = (table t).settings ∧ Readable t' ∧
      ∀ id, (∀ q ∈ rs, (table t).settings.Fits q → q.id ≠ id) →
        (table t').rows.filter (·.id == id) = (table t).rows.filter (·.id == id) := by
  -- the settings decide which records fit, and no put changes them
  induction rs generalizing t with
  | nil => exact ⟨t, rfl, rfl, hstored, fun _ _ => rfl⟩
  | cons r rs ih =>
    have hrest : ∀ q ∈ rs, q.vector.size = q.dimensions := fun q hq => hrs q (List.mem_cons_of_mem r hq)
    by_cases hfits : (table t).settings.Fits r
    · obtain ⟨t₁, hput, -, hlong, hrows⟩ := put_fitting hstored (hrs r List.mem_cons_self) hfits
      have hsettings := (keeps_put hput).settings
      obtain ⟨t', hafter, hsettings', hlong', hsame⟩ := ih hlong hrest
      refine ⟨t', ?_, hsettings'.trans hsettings, hlong', fun id hid => ?_⟩
      · rw [← hafter, List.map_cons, after_cons, serve, hput]
        rfl
      · rw [hsame id fun q hq hq' => hid q (List.mem_cons_of_mem r hq) (hsettings ▸ hq'), hrows]
        exact (filter_put r _).2 id (hid r List.mem_cons_self hfits).symm
    · obtain ⟨e, hput, -⟩ := put_unfit hfits
      obtain ⟨t', hafter, hsettings, hlong, hsame⟩ := ih hstored hrest
      refine ⟨t', ?_, hsettings, hlong, fun id hid => hsame id fun q hq => hid q (List.mem_cons_of_mem r hq)⟩
      rw [← hafter, List.map_cons, after_cons, serve, hput]
      rfl

/-- Whatever is put before and after, and whether it fits or not: what is read back under an identifier is the last
record put under it that fits. -/
theorem last_put_readBack (hstored : Readable t) {rs rs' : List Record}
    (hrs : ∀ q ∈ rs ++ r :: rs', q.vector.size = q.dimensions) (hfits : (table t).settings.Fits r)
    (hlast : ∀ q ∈ rs', (table t).settings.Fits q → q.id ≠ r.id) (project : String) :
    ∃ found, ((table t).after ((rs ++ r :: rs').map .put)).projectRecords project = .ok found ∧
      found.filter (·.id == r.id) = if r.project = project then [r] else [] := by
  obtain ⟨t₁, hafter₁, hsettings₁, hlong₁, -⟩ := rows_after_puts hstored fun q hq => hrs q (List.mem_append_left _ hq)
  obtain ⟨t₂, hput, -, hlong₂, hrows⟩ := put_fitting hlong₁ (hrs r (by simp)) (hsettings₁ ▸ hfits)
  have hsettings₂ := (keeps_put hput).settings.trans hsettings₁
  obtain ⟨t₃, hafter₃, -, hlong₃, hsame⟩ := rows_after_puts hlong₂ fun q hq =>
    hrs q (List.mem_append_right _ (List.mem_cons_of_mem r hq))
  have hafter : (table t).after ((rs ++ r :: rs').map .put) = table t₃ := by
    rw [← hafter₃, List.map_append, List.map_cons, after_append, hafter₁, after_cons, serve, hput]
    rfl
  refine ⟨_, by rw [hafter]; exact projectRecords_eq hlong₃ project, ?_⟩
  rw [filter_byPosition_project, hsame r.id fun q hq hq' => hlast q hq (hsettings₂ ▸ hq'), hrows, (filter_put r _).1,
    byPosition_own]

/-- A table with one record, for vectors of at most two components. -/
def smallTable : TableStore where
  embeddings := [⟨{ noteRecord 1 with vector := #[] }, TableStore.encode (noteRecord 1).vector, 0⟩]
  limit := some 2

/-- A record whose vector is made of a negative zero and of no number at all. -/
def oddRecord : Record := { noteRecord 2 with id := "odd", index := 1, vector := #[⟨0x80000000⟩, ⟨0xffc12345⟩] }

/-- Its bits come back, and a record with three components changes nothing. -/
theorem put_roundTrip_odd :
    Readable smallTable ∧ oddRecord.vector.size = oddRecord.dimensions ∧ (table smallTable).settings.Fits oddRecord ∧
      (∃ t', (table smallTable).serve (.put oddRecord) = (table t', .done) ∧ ∃ after,
        (table t').projectRecords "p" = .ok after ∧ after.filter (·.id == "odd") = [oddRecord]) ∧
      (noteRecord 3).vector.size = (noteRecord 3).dimensions ∧ ¬(table smallTable).settings.Fits (noteRecord 3) ∧
      (table smallTable).serve (.put (noteRecord 3)) = (table smallTable, .refused (.dimensionUnsupported 3 2)) := by
  have hstored : Readable smallTable := by
    have hrows : (table smallTable).rows = [noteRecord 1] :=
      congrArg (fun r => [r]) (TableStore.view_row (noteRecord 1) 0)
    simp [Readable, hrows, noteRecord]
  have hfits : (table smallTable).settings.Fits oddRecord := by
    refine ⟨⟨fun _ => by decide, ?_⟩, fun _ => by decide, fun _ => by decide, fun _ => by decide⟩
    rintro _ ⟨⟩
    decide
  have hunfit : ¬(table smallTable).settings.Fits (noteRecord 3) := fun h =>
    absurd (h.dimensions.limit 2 rfl) (by decide)
  obtain ⟨t', hserve, -, -, hread⟩ := (put_roundTrip hstored (r := oddRecord) rfl).1 hfits
  obtain ⟨before, after, -, hafter, hreadAs⟩ := hread "p"
  obtain ⟨e, hrefused, hlong, -⟩ := (put_roundTrip hstored (r := noteRecord 3) Array.size_replicate).2 hunfit
  refine ⟨hstored, rfl, hfits, ⟨t', hserve, after, hafter, hreadAs.own⟩, Array.size_replicate, hunfit, ?_⟩
  rw [hrefused, hlong 2 rfl (by decide)]
  rfl

end Store

end CodeIndex
