import CodeIndex.Proofs.Store.Majority
import CodeIndex.Proofs.Store.View

/-!
What a store of either kind answers, told from its entries, its records and its limit alone. The one answer that the
order of the records can change is the signature of most of them, and only where two lead with as many records and the
same provider.
-/

namespace CodeIndex

open Number CodeIndex.Embedding

namespace Store

variable {s s' : Store} {project id : String} {dimensions limit : Nat}

/-- A signature's count is the number of the records that carry it. -/
theorem count_of_mem_tally {records : List Record} {signature : Signature} {n : Nat}
    (h : (signature, n) ∈ tally records) : n = records.countP (·.signature == signature) := by
  induction records using List.reverseRecOn generalizing signature n with
  | nil => cases h
  | append_singleton records r ih =>
    rw [tally_eq, List.foldl_append, ← tally_eq] at h
    simp only [List.foldl_cons, List.foldl_nil, counted] at h
    rw [List.countP_append, List.countP_singleton]
    split at h
    · obtain ⟨c, hc, he⟩ := List.mem_map.1 h
      split at he
      · rename_i hsig
        cases he
        rw [ih hc, if_pos (beq_iff_eq.2 (beq_iff_eq.1 hsig).symm)]
      · rename_i hsig
        cases he
        rw [ih hc, if_neg fun he => hsig (beq_iff_eq.2 (beq_iff_eq.1 he).symm), Nat.add_zero]
    · rename_i hany
      obtain h | h := List.mem_append.1 h
      · have hne : ¬(r.signature == signature) = true := fun he =>
          hany (List.any_eq_true.2 ⟨_, h, beq_iff_eq.2 (beq_iff_eq.1 he).symm⟩)
        rw [ih h, if_neg hne, Nat.add_zero]
      · cases List.mem_singleton.1 h
        have hzero : records.countP (·.signature == r.signature) = 0 := by
          refine List.countP_eq_zero.2 fun q hq he => hany ?_
          obtain ⟨m, hm⟩ := mem_tally.2 ⟨q, hq, beq_iff_eq.1 he⟩
          exact List.any_eq_true.2 ⟨_, hm, by simp⟩
        simp [hzero]

/-- Signatures of one provider that as many of the records carry. -/
structure Tied (records : List Record) (a b : Signature) : Prop where
  provider : a.provider = b.provider
  count : records.countP (·.signature == a) = records.countP (·.signature == b)

/-- Which signature is counted how often is told by the records, in whatever order. -/
theorem mem_tally_congr {records records' : List Record} (h : records.Perm records') {c : Signature × Nat}
    (hc : c ∈ tally records) : c ∈ tally records' := by
  obtain ⟨r, hr, hsig⟩ := mem_tally.1 ⟨c.2, hc⟩
  obtain ⟨n, hn⟩ := mem_tally.2 ⟨r, h.mem_iff.1 hr, hsig⟩
  rwa [count_of_mem_tally hn, ← h.countP_eq, ← count_of_mem_tally hc] at hn

/-- The order of the records, and that of their counts, decides no more than which of two tied signatures leads. -/
theorem majority_tied {records records' : List Record} {counts counts' : List (Signature × Nat)}
    (h : records.Perm records') (hc : counts.Perm (tally records)) (hc' : counts'.Perm (tally records')) :
    Option.Rel (Tied records) (majoritySignature counts) (majoritySignature counts') := by
  have hcounts : ∀ c, c ∈ counts ↔ c ∈ counts' := fun c => by
    rw [hc.mem_iff, hc'.mem_iff]
    exact ⟨mem_tally_congr h, mem_tally_congr h.symm⟩
  cases ha : majoritySignature counts with
  | none =>
    have hnil := majoritySignature_eq_none ha
    have hnil' : counts' = [] := List.eq_nil_iff_forall_not_mem.2 fun c hm => by simpa [hnil] using (hcounts c).2 hm
    rw [hnil']
    exact .none
  | some a =>
    obtain ⟨n, hleads⟩ := majoritySignature_spec ha
    cases hb : majoritySignature counts' with
    | none =>
      have hnil := majoritySignature_eq_none hb
      exact absurd ((hcounts _).1 hleads.mem) (by simp [hnil])
    | some b =>
      obtain ⟨m, hleads'⟩ := majoritySignature_spec hb
      obtain ⟨hcount, hprovider⟩ := hleads.tied (hleads'.congr fun c => (hcounts c).symm)
      refine .some ⟨hprovider, ?_⟩
      rw [← count_of_mem_tally (hc.mem_iff.1 hleads.mem),
        ← count_of_mem_tally (hc.mem_iff.1 ((hcounts _).2 hleads'.mem))]
      exact hcount

/-- Records that are read back are records of the project that the store holds. -/
theorem mem_projectRecords {rs : List Record} {r : Record} (h : s.projectRecords project = .ok rs) (hr : r ∈ rs) :
    r ∈ s.rows ∧ r.project = project := by
  cases s with
  | memory m =>
    cases h
    obtain ⟨hr, hp⟩ := List.mem_filter.1 ((List.mergeSort_perm ..).mem_iff.1 hr)
    exact ⟨hr, beq_iff_eq.1 hp⟩
  | table t =>
    obtain ⟨row, hrow, rfl⟩ := TableStore.mem_of_mapM_ofRow h hr
    obtain ⟨hrow, hp⟩ := List.mem_filter.1 ((List.mergeSort_perm ..).mem_iff.1 hrow)
    exact ⟨List.mem_map_of_mem hrow, beq_iff_eq.1 hp⟩

theorem chunks_stats (s : Store) (project : String) :
    (s.stats project).chunks = (s.rows.filter (·.project == project)).length := by
  cases s with
  | memory m => rfl
  | table t =>
    rw [rows_filter, List.length_map]
    rfl

theorem files_stats (s : Store) (project : String) :
    (s.stats project).files = (s.entries.filter (·.project == project)).length := by
  cases s <;> rfl

theorem count_deleteRecords (s : Store) (id : String) :
    (s.deleteRecords id).2 = s.rows.countP (·.fileId == id) := by
  cases s with
  | memory m => rfl
  | table t =>
    rw [rows, List.countP_map]
    rfl

theorem count_clear (s : Store) (project : String) :
    (s.clear project).2 = (s.rows.filter (·.project == project)).length := by
  cases s with
  | memory m => rfl
  | table t =>
    rw [rows_filter, List.length_map]
    rfl

/-- A search looks at the records of the project whose vectors are as long as what is looked for. -/
theorem search_eq {query : Vec} (h : ∀ r ∈ s.rows, r.vector.size = r.dimensions)
    (hq : s.settings.Holds query.size) (project : String) (k : Nat) (minScore : Single) :
    s.search project query k minScore = .ok (nearest
      ((s.rows.filter (·.project == project)).filter (·.vector.size == query.size)) query k minScore) := by
  cases s with
  | memory m => rfl
  | table t =>
    have hlen : ∀ row ∈ t.embeddings, (TableStore.view row).vector.size = row.record.dimensions :=
      fun row hrow => h _ (List.mem_map_of_mem hrow)
    have hsize : (t.rowsOf project).filter (·.record.dimensions == query.size) =
        (t.rowsOf project).filter ((·.vector.size == query.size) ∘ TableStore.view) := by
      refine List.filter_congr fun row hrow => ?_
      rw [Function.comp, hlen row (List.mem_of_mem_filter hrow)]
    simp only [search, TableStore.search, column_ok (hq rfl)]
    rw [rows_filter, List.filter_map]
    change (((t.rowsOf project).filter (·.record.dimensions == query.size)).mapM TableStore.ofRow).bind _ = _
    rw [hsize, TableStore.mapM_ofRow]
    · rfl
    · exact fun row hrow => hlen row (List.mem_of_mem_filter (List.mem_of_mem_filter hrow))

/-- Stores with the same records of a project, in whatever order, find the same in it. -/
theorem search_congr {t : Store} {query : Vec} (hn : (s.rows.map (·.id)).Nodup) (hn' : (t.rows.map (·.id)).Nodup)
    (hsize : ∀ r ∈ s.rows, r.vector.size = r.dimensions) (hsize' : ∀ r ∈ t.rows, r.vector.size = r.dimensions)
    (hq : s.settings.Holds query.size) (hq' : t.settings.Holds query.size)
    (h : ∀ r : Record, r.project = project → (r ∈ t.rows ↔ r ∈ s.rows)) (k : Nat) (minScore : Single) :
    t.search project query k minScore = s.search project query k minScore := by
  have hperm : (t.rows.filter (·.project == project)).Perm (s.rows.filter (·.project == project)) := by
    refine (List.perm_ext_iff_of_nodup (hn'.of_map.filter _) (hn.of_map.filter _)).2 fun r => ?_
    rw [List.mem_filter, List.mem_filter]
    exact and_congr_left fun hp => h r (beq_iff_eq.1 hp)
  rw [search_eq hsize hq, search_eq hsize' hq']
  refine congrArg Except.ok (nearest_congr (hperm.filter _) (fun r hr p hp => ?_) query k minScore)
  exact List.inj_on_of_nodup_map hn' (List.mem_of_mem_filter (List.mem_of_mem_filter hr))
    (List.mem_of_mem_filter (List.mem_of_mem_filter hp))

theorem put_beyond {r : Record} (hl : s.settings.limit = some limit) (hd : limit < r.dimensions) :
    s.put r = .error (.dimensionUnsupported r.dimensions limit) := by
  cases s with
  | memory m =>
    have hm : m.limit = some limit := hl
    simp [put, MemoryStore.put, MemoryStore.checkLimit, hm, hd, bind, Except.bind, Except.map]
  | table t =>
    have ht : t.limit = some limit := hl
    simp [put, TableStore.put, TableStore.checkLimit, ht, hd, bind, Except.bind, Except.map]

theorem mem_upsert {α : Type} {key : α → String} {x y : α} {xs : List α} :
    y ∈ upsert key x xs ↔ y ∈ xs ∧ key y ≠ key x ∨ y = x := by
  unfold upsert
  split
  · rename_i hany
    obtain ⟨z, hz, hkey⟩ := List.any_eq_true.1 hany
    rw [List.mem_map]
    constructor
    · rintro ⟨z, hz, rfl⟩
      by_cases he : key z = key x
      · rw [if_pos (beq_iff_eq.2 he)]
        exact .inr rfl
      · rw [if_neg (by simpa using he)]
        exact .inl ⟨hz, he⟩
    · rintro (⟨hy, hne⟩ | rfl)
      · exact ⟨y, hy, if_neg (by simpa using hne)⟩
      · exact ⟨z, hz, if_pos hkey⟩
  · rename_i hnone
    have hne : y ∈ xs → key y ≠ key x := fun hy he => hnone (List.any_eq_true.2 ⟨y, hy, beq_iff_eq.2 he⟩)
    rw [List.mem_append, List.mem_singleton, and_iff_left_of_imp hne]

/-- A record is one of those before with another identifier, or the one that was put. -/
theorem mem_rows_put {r q : Record} (h : s.put r = .ok s') : q ∈ s'.rows ↔ q ∈ s.rows ∧ q.id ≠ r.id ∨ q = r := by
  obtain hput | hput := rows_put h <;> rw [hput]
  · exact mem_upsert
  · rw [List.mem_append, List.mem_filter, bne_iff_ne, List.mem_singleton]

/-- A record takes the place of the one with its identifier, if there is one. -/
theorem rows_put_perm {r : Record} (h : s.put r = .ok s') (hn : (s.rows.map (·.id)).Nodup) :
    s'.rows.Perm (r :: s.rows.filter (·.id != r.id)) := by
  obtain hput | hput := rows_put h
  · rw [hput]
    exact upsert_perm hn
  · rw [hput]
    exact List.perm_append_singleton r _

/-- Records of other files stay as they are if none of them has the identifier of the new one. -/
theorem others_put {r : Record} (h : s.put r = .ok s') (hid : ∀ q ∈ s.rows, q.fileId ≠ r.fileId → q.id ≠ r.id) :
    s'.rows.filter (·.fileId != r.fileId) = s.rows.filter (·.fileId != r.fileId) := by
  obtain hput | hput := rows_put h
  · rw [hput]
    exact filter_upsert (by simp) fun q hq hne => hid q hq (by simpa using hne)
  · have hsame : s.rows.filter (fun q => (q.fileId != r.fileId) && (q.id != r.id)) =
        s.rows.filter (·.fileId != r.fileId) := by
      refine List.filter_congr fun q hq => ?_
      by_cases hne : q.fileId = r.fileId
      · simp [hne]
      · simp [hne, hid q hq hne]
    rw [hput, List.filter_append, List.filter_filter, hsame]
    simp

/-- A file is filed under one identifier, and its numbers fit. -/
structure Takes (s : Store) (f : FileEntry) : Prop where
  size : s.settings.Holds f.size
  lineCount : s.settings.Holds f.lineCount
  name : ∀ g ∈ s.entries, g.project = f.project → g.path = normalizePath f.path → g.id = f.id

theorem putFile_within {f : FileEntry} (h : s.Takes f) : ∃ s', s.putFile f = .ok s' := by
  cases s with
  | memory m => exact ⟨_, rfl⟩
  | table t =>
    by_cases hany : t.files.any (FileEntry.id · == f.id) = true
    · simp only [putFile, TableStore.putFile, column_ok (h.size rfl), column_ok (h.lineCount rfl), hany]
      exact ⟨_, rfl⟩
    · have hnone : (t.files.any fun g => g.project == f.project && g.path == normalizePath f.path) = false := by
        rw [List.any_eq_false]
        intro g hg hh
        simp only [Bool.and_eq_true, beq_iff_eq] at hh
        exact hany (List.any_eq_true.2 ⟨g, hg, by simpa using h.name g hg hh.1 hh.2⟩)
      simp only [putFile, TableStore.putFile, column_ok (h.size rfl), column_ok (h.lineCount rfl), hany, hnone]
      exact ⟨_, rfl⟩

theorem widen_within (hd : s.settings.Admits dimensions) : ∃ s', s.widen dimensions = .ok s' := by
  cases s with
  | memory m =>
    simp only [widen, MemoryStore.widen, checkLimit_memory hd.limit]
    exact ⟨_, rfl⟩
  | table t =>
    simp only [widen, TableStore.widen, checkLimit_table hd.limit]
    by_cases hw : t.widest < dimensions
    · simp only [hw, column_ok (hd.holds rfl)]
      exact ⟨_, rfl⟩
    · simp only [hw]
      exact ⟨_, rfl⟩

theorem widen_beyond (hl : s.settings.limit = some limit) (hd : limit < dimensions) :
    s.widen dimensions = .error (.dimensionUnsupported dimensions limit) := by
  cases s with
  | memory m =>
    have hm : m.limit = some limit := hl
    simp [widen, MemoryStore.widen, MemoryStore.checkLimit, hm, hd, bind, Except.bind, Except.map]
  | table t =>
    have ht : t.limit = some limit := hl
    simp [widen, TableStore.widen, TableStore.checkLimit, ht, hd, bind, Except.bind, Except.map]

end Store

end CodeIndex
