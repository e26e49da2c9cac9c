import CodeIndex.Lexical
import Mathlib.Data.List.Induction
import Mathlib.Data.List.Nodup

/-!
The words of an index, looked up by project and path. Indexing a file and removing one change what is kept for that
path of that project, and nothing else.
-/

namespace CodeIndex.Lexical

variable {α : Type} {key key' : String}

theorem find?_map_snd (xs : List (String × α)) (key : String) :
    (xs.find? (·.1 == key)).map (·.2) = xs.lookup key := by
  induction xs with
  | nil => rfl
  | cons x xs ih =>
    obtain ⟨k, v⟩ := x
    rw [List.find?_cons, List.lookup_cons]
    by_cases h : k = key
    · simp [h]
    · simp only [beq_eq_false_iff_ne.2 h, beq_eq_false_iff_ne.2 (Ne.symm h), ih]

theorem any_iff_mem {xs : List (String × α)} : xs.any (·.1 == key) = true ↔ key ∈ xs.map (·.1) := by
  rw [List.any_eq_true, List.mem_map]
  exact exists_congr fun x => and_congr_right fun _ => beq_iff_eq

theorem lookup_isSome_iff_mem {xs : List (String × α)} : (xs.lookup key).isSome = true ↔ key ∈ xs.map (·.1) := by
  rw [List.lookup_isSome_iff, List.mem_map]
  exact exists_congr fun x => and_congr_right fun _ => by rw [beq_iff_eq, eq_comm]

theorem lookup_of_mem {xs : List (String × α)} {x : String × α} (hn : (xs.map (·.1)).Nodup) (hx : x ∈ xs) :
    xs.lookup x.1 = some x.2 := by
  induction xs with
  | nil => cases hx
  | cons y xs ih =>
    obtain ⟨hnew, hn⟩ := List.nodup_cons.1 hn
    rw [List.lookup_cons]
    rcases List.mem_cons.1 hx with rfl | hx
    · rw [beq_self_eq_true]
    · have hne : x.1 ≠ y.1 := fun he => hnew (List.mem_map.2 ⟨x, hx, he⟩)
      rw [beq_eq_false_iff_ne.2 hne]
      exact ih hn hx

theorem lookup_map (xs : List (String × α)) (key key' : String) (g : α → α) :
    (xs.map fun x => if x.1 == key then (x.1, g x.2) else x).lookup key' =
      if key' = key then (xs.lookup key).map g else xs.lookup key' := by
  induction xs with
  | nil => simp
  | cons x xs ih =>
    obtain ⟨k, w⟩ := x
    rw [List.map_cons]
    by_cases hk : k = key <;> by_cases hk' : key' = key
    · simp [hk, hk']
    · simp [hk, hk', List.lookup_cons, beq_eq_false_iff_ne.2 hk'] at ih ⊢
      exact ih
    · simp [hk, hk', List.lookup_cons, beq_eq_false_iff_ne.2 (Ne.symm hk)] at ih ⊢
      exact ih
    · simp only [beq_eq_false_iff_ne.2 hk, hk', Bool.false_eq_true, if_false, List.lookup_cons] at ih ⊢
      rw [ih]

/-- A key with a changed value, in its place, or with a first one at the end. -/
theorem lookup_amend (xs : List (String × α)) (key key' : String) (g : α → α) (v : α) :
    (if xs.any (·.1 == key) then xs.map fun x => if x.1 == key then (x.1, g x.2) else x
      else xs ++ [(key, v)]).lookup key' =
      if key' = key then some (((xs.lookup key).map g).getD v) else xs.lookup key' := by
  split
  · rename_i h
    rw [any_iff_mem, ← lookup_isSome_iff_mem] at h
    rw [lookup_map]
    obtain ⟨w, hw⟩ := Option.isSome_iff_exists.1 h
    rw [hw]
    rfl
  · rename_i h
    rw [any_iff_mem, ← lookup_isSome_iff_mem, Bool.not_eq_true, Option.isSome_eq_false_iff,
      Option.isNone_iff_eq_none] at h
    rw [List.lookup_append, List.lookup_cons, h]
    by_cases hk : key' = key
    · rw [hk, h, if_pos rfl, beq_self_eq_true, Option.none_or]
      rfl
    · rw [if_neg hk, beq_eq_false_iff_ne.2 hk]
      exact Option.or_none

/-- A key with a new value, in its place or at the end. -/
theorem lookup_assign (xs : List (String × α)) (key key' : String) (v : α) :
    (assign xs key v).lookup key' = if key' = key then some v else xs.lookup key' := by
  rw [assign, lookup_amend xs key key' (fun _ => v) v]
  cases xs.lookup key <;> rfl

/-- What is kept by its key is found as before. -/
theorem lookup_filter (keep : String → Bool) (xs : List (String × α)) (key : String) :
    (xs.filter (keep ·.1)).lookup key = if keep key = true then xs.lookup key else none := by
  induction xs with
  | nil => simp
  | cons x xs ih =>
    obtain ⟨k, w⟩ := x
    by_cases hk : keep k = true
    · rw [List.filter_cons_of_pos (by exact hk), List.lookup_cons, List.lookup_cons, ih]
      by_cases he : key = k
      · rw [he, if_pos hk, if_pos hk]
      · rw [beq_eq_false_iff_ne.2 he]
    · rw [List.filter_cons_of_neg (by exact hk), ih, List.lookup_cons]
      by_cases he : key = k
      · rw [he, if_neg hk, if_neg hk]
      · rw [beq_eq_false_iff_ne.2 he]

namespace Shelf

variable {s : Shelf} {path : String} {entries : List Entry}

theorem mem_order_iff : path ∈ s.order ↔ (s.files.lookup path).isSome = true := by
  rw [mem_order, any_iff_mem, lookup_isSome_iff_mem]

theorem lookup_replace (s : Shelf) (path path' : String) (entries : List Entry) :
    (s.replace path entries).files.lookup path' = if path' = path then some entries else s.files.lookup path' :=
  lookup_assign s.files path path' entries

theorem lookup_remove (s : Shelf) (path path' : String) :
    (s.remove path).files.lookup path' = if path' = path then none else s.files.lookup path' := by
  unfold remove
  split
  · exact (lookup_filter (· != path) s.files path').trans (by simp)
  · rename_i h
    rw [← mem_order, mem_order_iff, Option.not_isSome_iff_eq_none] at h
    split
    · rename_i he
      rw [he, h]
    · rfl

theorem order_remove (s : Shelf) (path : String) : (s.remove path).order = s.order.filter (· != path) := by
  unfold remove
  split
  · rfl
  · rename_i h
    rw [← mem_order] at h
    refine (List.filter_eq_self.2 fun q hq => bne_iff_ne.2 ?_).symm
    rintro rfl
    exact h hq

/-- Each entry is kept under its path. -/
def Ordered (s : Shelf) : Prop := ∀ path entries, s.files.lookup path = some entries → ∀ e ∈ entries, e.path = path

theorem Ordered.replace (h : s.Ordered) (he : ∀ e ∈ entries, e.path = path) : (s.replace path entries).Ordered := by
  intro path' entries' h'
  rw [lookup_replace] at h'
  split at h'
  · rename_i hp
    cases h'
    rw [hp]
    exact he
  · exact h path' entries' h'

theorem Ordered.remove (h : s.Ordered) (path : String) : (s.remove path).Ordered := by
  intro path' entries' h'
  rw [lookup_remove] at h'
  split at h'
  · cases h'
  · exact h path' entries' h'

/-- The entries with a path are those kept for it. -/
theorem Ordered.filter_path (h : s.Ordered) (path : String) :
    s.entries.filter (·.path == path) = (s.files.lookup path).getD [] := by
  -- among paths that are enumerated once, this one comes at most once
  have hfound : ∀ order : List String, order.Nodup →
      ((order.filterMap fun q => s.files.lookup q).flatten).filter (·.path == path) =
        if path ∈ order then (s.files.lookup path).getD [] else [] := by
    intro order hn
    induction order with
    | nil => rfl
    | cons q order ih =>
      obtain ⟨hnew, hn⟩ := List.nodup_cons.1 hn
      rw [List.filterMap_cons]
      by_cases hp : path = q
      · have hrest := ih hn
        rw [if_neg (hp ▸ hnew)] at hrest
        rw [if_pos (hp ▸ List.mem_cons_self)]
        cases hq : s.files.lookup q with
        | none =>
          rw [hp, hq]
          exact hp ▸ hrest
        | some es =>
          have hes : es.filter (·.path == path) = es :=
            List.filter_eq_self.2 fun e he => beq_iff_eq.2 ((h q es hq e he).trans hp.symm)
          rw [hp, hq, ← hp, List.flatten_cons, List.filter_append, hes, hrest, List.append_nil]
          rfl
      · have hmem : path ∈ q :: order ↔ path ∈ order := by simp [hp]
        rw [if_congr hmem rfl rfl, ← ih hn]
        cases hq : s.files.lookup q with
        | none => rfl
        | some es =>
          have hes : es.filter (·.path == path) = [] :=
            List.filter_eq_nil_iff.2 fun e he => by simpa [h q es hq e he] using Ne.symm hp
          dsimp only
          rw [List.flatten_cons, List.filter_append, hes, List.nil_append]
  rw [Shelf.entries, hfound s.order s.nodup]
  split
  · rfl
  · rename_i hp
    rw [mem_order_iff, Option.not_isSome_iff_eq_none] at hp
    rw [hp]
    rfl

end Shelf

namespace Index

variable {ix : Index} {project path : String} {chunks : List Chunk} {symbols : List Symbol}

/-- What is kept for a path of a project. -/
def words? (ix : Index) (project path : String) : Option (List Entry) := (ix.shelf project).files.lookup path

/-- What is kept for a file that is indexed. -/
def wordsOf (path : String) (chunks : List Chunk) (symbols : List Symbol) : List Entry :=
  (chunks.filter (!·.content.isEmpty)).map (Entry.ofChunk path) ++ symbols.map (Entry.ofSymbol path)

theorem shelf_eq (ix : Index) (project : String) : ix.shelf project = (ix.projects.lookup project).getD .empty := by
  rw [shelf, find?_map_snd]

theorem shelf_setShelf (ix : Index) (project project' : String) (s : Shelf) :
    (ix.setShelf project s).shelf project' = if project' = project then s else ix.shelf project' := by
  rw [shelf_eq, shelf_eq, setShelf, lookup_assign]
  split <;> rfl

theorem words?_indexFile (ix : Index) (project path project' path' : String) (chunks : List Chunk)
    (symbols : List Symbol) :
    (ix.indexFile project path chunks symbols).words? project' path' =
      if project' = project ∧ path' = path then some (wordsOf path chunks symbols) else ix.words? project' path' := by
  unfold words? indexFile
  dsimp only
  rw [shelf_setShelf]
  by_cases hp : project' = project
  · rw [if_pos hp, hp]
    exact (Shelf.lookup_replace ..).trans (if_congr (by simp) rfl rfl)
  · rw [if_neg hp, if_neg fun h => hp h.1]

theorem words?_removeFile (ix : Index) (project path project' path' : String) :
    (ix.removeFile project path).words? project' path' =
      if project' = project ∧ path' = path then none else ix.words? project' path' := by
  unfold words? removeFile
  rw [shelf_setShelf]
  by_cases hp : project' = project
  · rw [if_pos hp, hp]
    exact (Shelf.lookup_remove ..).trans (if_congr (by simp) rfl rfl)
  · rw [if_neg hp, if_neg fun h => hp h.1]

theorem containsFile_eq (ix : Index) (project path : String) :
    ix.containsFile project path = (ix.words? project path).isSome := by
  rw [Bool.eq_iff_iff, containsFile, any_iff_mem, words?, lookup_isSome_iff_mem]

theorem mem_files : path ∈ ix.files project ↔ (ix.words? project path).isSome = true := Shelf.mem_order_iff

/-- Files with one record more. -/
def gathered (files : List (String × List Entry)) (r : Record) : List (String × List Entry) :=
  if files.any (·.1 == r.path) then files.map fun f => if f.1 == r.path then (f.1, f.2 ++ [Entry.ofRecord r]) else f
  else files ++ [(r.path, [Entry.ofRecord r])]

theorem gather_append (records : List Record) (r : Record) : gather (records ++ [r]) = gathered (gather records) r :=
  List.foldl_append

theorem keys_gathered (files : List (String × List Entry)) (r : Record) :
    (gathered files r).map (·.1) =
      if files.any (·.1 == r.path) then files.map (·.1) else files.map (·.1) ++ [r.path] :=
  keys_amend files r.path (· ++ [Entry.ofRecord r]) [Entry.ofRecord r]

theorem nodup_gather (records : List Record) : ((gather records).map (·.1)).Nodup := by
  induction records using List.reverseRecOn with
  | nil => exact List.nodup_nil
  | append_singleton records r ih =>
    rw [gather_append, keys_gathered]
    split
    · exact ih
    · rename_i hany
      rw [any_iff_mem] at hany
      exact ih.append (List.nodup_singleton _) (by simpa using hany)

/-- What is gathered under a path are its records, in their order. -/
theorem lookup_gather (records : List Record) (path : String) :
    (gather records).lookup path =
      if records.filter (·.path == path) = [] then none
      else some ((records.filter (·.path == path)).map Entry.ofRecord) := by
  induction records using List.reverseRecOn with
  | nil => rfl
  | append_singleton records r ih =>
    have hstep := lookup_amend (gather records) r.path path (· ++ [Entry.ofRecord r]) [Entry.ofRecord r]
    rw [gather_append, List.filter_append]
    refine hstep.trans ?_
    by_cases hpath : path = r.path
    · have hown : [r].filter (·.path == path) = [r] := List.filter_cons_of_pos (by simpa using hpath.symm)
      rw [if_pos hpath, ← hpath, ih, hown]
      split <;> rename_i hold
      · simp [hold]
      · simp
    · have hother : [r].filter (·.path == path) = [] := List.filter_cons_of_neg (by simpa using Ne.symm hpath)
      rw [if_neg hpath, ih, hother, List.append_nil]

/-- A shelf that takes over files has their entries, and its own for all other paths. -/
theorem lookup_replaceAll (files : List (String × List Entry)) (s : Shelf) (path : String)
    (hn : (files.map (·.1)).Nodup) :
    (files.foldl (fun s f => s.replace f.1 f.2) s).files.lookup path = (files.lookup path).or (s.files.lookup path) := by
  induction files generalizing s with
  | nil => rfl
  | cons f files ih =>
    obtain ⟨hnew, hn⟩ := List.nodup_cons.1 hn
    rw [List.foldl_cons, ih _ hn, Shelf.lookup_replace, List.lookup_cons]
    by_cases hpath : path = f.1
    · have hnone : files.lookup path = none := by
        rw [← Option.not_isSome_iff_eq_none, lookup_isSome_iff_mem, hpath]
        exact hnew
      rw [hnone, if_pos hpath, beq_iff_eq.2 hpath]
      rfl
    · rw [if_neg hpath, beq_eq_false_iff_ne.2 hpath]

/-- The words of a path are those of its records, if there are any. -/
theorem words?_indexRecords (ix : Index) (project project' path : String) (records : List Record) :
    (ix.indexRecords project records).words? project' path =
      if project' = project ∧ records.filter (·.path == path) ≠ [] then
        some ((records.filter (·.path == path)).map Entry.ofRecord)
      else ix.words? project' path := by
  unfold words? indexRecords
  rw [shelf_setShelf]
  by_cases hp : project' = project
  · rw [if_pos hp, hp, lookup_replaceAll _ _ _ (nodup_gather records), lookup_gather]
    by_cases hown : records.filter (·.path == path) = []
    · rw [if_pos hown, if_neg fun h => h.2 hown, Option.none_or]
    · rw [if_neg hown, if_pos ⟨rfl, hown⟩, Option.some_or]
  · rw [if_neg hp, if_neg fun h => hp h.1]

/-- Words come from records of that path, or were there before. -/
theorem isSome_indexRecords {records : List Record} {project' : String}
    (h : ((ix.indexRecords project records).words? project' path).isSome = true) :
    (ix.words? project' path).isSome = true ∨ project' = project ∧ ∃ r ∈ records, r.path = path := by
  rw [words?_indexRecords] at h
  split at h
  · rename_i hown
    obtain ⟨r, hr⟩ := List.exists_mem_of_ne_nil _ hown.2
    obtain ⟨hr, hpath⟩ := List.mem_filter.1 hr
    exact .inr ⟨hown.1, r, hr, beq_iff_eq.1 hpath⟩
  · exact .inl h

/-- The shelves of all projects are in order. -/
def Ordered (ix : Index) : Prop := ∀ project, (ix.shelf project).Ordered

theorem Ordered.indexFile (h : ix.Ordered) (project path : String) (chunks : List Chunk) (symbols : List Symbol) :
    (ix.indexFile project path chunks symbols).Ordered := by
  intro project'
  unfold Index.indexFile
  dsimp only
  rw [shelf_setShelf]
  split
  · refine (h project).replace fun e he => ?_
    rcases List.mem_append.1 he with he | he <;> obtain ⟨_, _, rfl⟩ := List.mem_map.1 he <;> rfl
  · exact h project'

theorem Ordered.removeFile (h : ix.Ordered) (project path : String) : (ix.removeFile project path).Ordered := by
  intro project'
  unfold Index.removeFile
  rw [shelf_setShelf]
  split
  · exact (h project).remove path
  · exact h project'

theorem Ordered.entries (h : ix.Ordered) (project path : String) :
    (ix.entries project).filter (·.path == path) = (ix.words? project path).getD [] := (h project).filter_path path

end Index

end CodeIndex.Lexical
