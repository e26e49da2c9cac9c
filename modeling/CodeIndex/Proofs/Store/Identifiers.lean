import CodeIndex.Proofs.Store.Interchange

/-!
Identifiers. Those that are derived from the parts of a key tell the parts again, as far as digests are apart. In a
store each entry and each record is under an identifier of its own, and so what a store makes of a new one can be told
without its place: an entry is filed or refused for what has its identifier or its path.
-/

namespace CodeIndex

/-- What comes before the first `c` is told by the whole. -/
theorem eq_of_append_cons {c : Char} {p q rest rest' : List Char} (hp : c ∉ p) (hq : c ∉ q)
    (h : p ++ c :: rest = q ++ c :: rest') : p = q := by
  induction p generalizing q with
  | nil =>
    cases q with
    | nil => rfl
    | cons d q =>
      obtain ⟨hd, -⟩ := List.cons.inj h
      exact absurd (hd ▸ List.mem_cons_self) hq
  | cons d p ih =>
    cases q with
    | nil =>
      obtain ⟨hd, -⟩ := List.cons.inj h
      exact absurd (hd ▸ List.mem_cons_self) hp
    | cons e q =>
      obtain ⟨rfl, hrest⟩ := List.cons.inj h
      rw [ih (fun hm => hp (List.mem_cons_of_mem d hm)) (fun hm => hq (List.mem_cons_of_mem d hm)) hrest]

theorem notMem_decimal {c : Char} (hc : c.isDigit = false) (n : Nat) : c ∉ (toString n).toList := fun hm => by
  have hdigits : (toString n).toList = Nat.toDigits 10 n := by simp
  have hdigit := Nat.isDigit_of_mem_toDigits (by decide) (by decide) (hdigits ▸ hm)
  rw [hc] at hdigit
  exact Bool.false_ne_true hdigit

theorem decimal_inj {m n : Nat} (h : (toString m).toList = (toString n).toList) : m = n := by
  simpa using congrArg (fun digits => Nat.ofDigitChars 10 digits 0) h

theorem toList_fileKey (project path : String) :
    (fileKey project path).toList = "file:".toList ++ (project.toList ++ ':' :: (normalizePath path).toList) := by
  simp [fileKey, String.toList_append, toString]

theorem toList_chunkKey (project path : String) (index : Nat) :
    (chunkKey project path index).toList = "chunk:".toList ++
      (project.toList ++ ':' :: ((normalizePath path).toList ++ ':' :: (toString index).toList)) := by
  simp [chunkKey, String.toList_append, toString]

variable {p q path path' : String}

theorem project_of_fileKey (hp : ':' ∉ p.toList) (hq : ':' ∉ q.toList) (h : fileKey p path = fileKey q path') :
    p = q := by
  have h := congrArg String.toList h
  rw [toList_fileKey, toList_fileKey] at h
  exact String.toList_inj.1 (eq_of_append_cons hp hq (List.append_cancel_left h))

theorem project_of_chunkKey {i j : Nat} (hp : ':' ∉ p.toList) (hq : ':' ∉ q.toList)
    (h : chunkKey p path i = chunkKey q path' j) : p = q := by
  have h := congrArg String.toList h
  rw [toList_chunkKey, toList_chunkKey] at h
  exact String.toList_inj.1 (eq_of_append_cons hp hq (List.append_cancel_left h))

/-- The number of a chunk comes after the last colon, so its key tells the number, and the key of its file. -/
theorem fileKey_of_chunkKey {i j : Nat} (h : chunkKey p path i = chunkKey q path' j) :
    fileKey p path = fileKey q path' ∧ i = j := by
  have hcolon : ∀ n : Nat, ':' ∉ (toString n).toList.reverse := fun n hm =>
    notMem_decimal (by decide) n (List.mem_reverse.1 hm)
  have h := congrArg String.toList h
  rw [toList_chunkKey, toList_chunkKey] at h
  have hback := congrArg List.reverse (List.append_cancel_left h)
  simp only [List.reverse_append, List.reverse_cons, List.append_assoc, List.singleton_append] at hback
  have hnumber := List.reverse_inj.1 (eq_of_append_cons (hcolon i) (hcolon j) hback)
  refine ⟨?_, decimal_inj hnumber⟩
  rw [hnumber] at hback
  have hfront := congrArg List.reverse (List.cons.inj (List.append_cancel_left hback)).2
  refine String.toList_inj.1 ?_
  rw [toList_fileKey, toList_fileKey]
  simpa using hfront

theorem fileKey_inj {project : String} (h : fileKey project path = fileKey project path') :
    normalizePath path = normalizePath path' := by
  have h := congrArg String.toList h
  rw [toList_fileKey, toList_fileKey] at h
  exact String.toList_inj.1 (List.cons.inj (List.append_cancel_left (List.append_cancel_left h))).2

theorem chunkKey_inj {project : String} {i j : Nat} (h : chunkKey project path i = chunkKey project path' j) :
    normalizePath path = normalizePath path' ∧ i = j := by
  obtain ⟨hfile, rfl⟩ := fileKey_of_chunkKey h
  exact ⟨fileKey_inj hfile, rfl⟩

/-- The identifiers of two files, and of three of their chunks. -/
theorem ids_of_two :
    fileId "p" "a.md" = "8d1e43fc-f5ee-596a-8eb0-c9891723eb82" ∧
      fileId "p" "b.md" = "4917da1c-bc35-593b-a621-5158aa47935c" ∧
      chunkId "p" "a.md" 0 = "c7fc4797-c6b1-5ca3-bad3-8c48d81d1939" ∧
      chunkId "p" "a.md" 1 = "1a27c41c-d5ef-5f82-8be6-4e7ac3808750" ∧
      chunkId "p" "b.md" 0 = "ed5a82ba-6d0f-57c1-983e-b96b24a81313" := by decide +kernel

theorem nodup_ids_of_two : ([chunkKey "p" "a.md" 0, chunkKey "p" "a.md" 1, chunkKey "p" "b.md" 0].map
    (Digest.Uuid.ofName idSpace)).Nodup := by
  obtain ⟨-, -, ha₀, ha₁, hb₀⟩ := ids_of_two
  change [chunkId "p" "a.md" 0, chunkId "p" "a.md" 1, chunkId "p" "b.md" 0].Nodup
  rw [ha₀, ha₁, hb₀]
  decide

/-- What a table of files makes of an entry, or why it refuses it: the entry keeps the project and the path of the one
with its identifier, and no two are of the same project and path. -/
def TableStore.filed (files : List FileEntry) (f : FileEntry) : Except StoreError FileEntry := do
  let size ← column f.size
  let lineCount ← column f.lineCount
  match files.find? (·.id == f.id) with
  | some g => return { f with project := g.project, path := g.path, size, lineCount }
  | none =>
    if files.any fun g => g.project == f.project && g.path == normalizePath f.path then throw .sqlite
    else return { f with path := normalizePath f.path }

/-- The entry that is filed takes the place of the one with its identifier, or comes last. -/
theorem TableStore.putFile_eq {t : TableStore} (hn : (t.files.map (·.id)).Nodup) (f : FileEntry) :
    t.putFile f = (filed t.files f).map fun g =>
      { t with updatedAt := upsert Prod.fst (f.id, t.now) t.updatedAt, files := Store.withEntry g t.files } := by
  unfold putFile filed
  cases column f.size with
  | error e => rfl
  | ok size =>
    cases column f.lineCount with
    | error e => rfl
    | ok lineCount =>
      cases hfind : t.files.find? (·.id == f.id) with
      | some g =>
        have hg := List.mem_of_find?_eq_some hfind
        have hid : g.id = f.id := by simpa using List.find?_some hfind
        have hany : t.files.any (·.id == f.id) = true := List.any_eq_true.2 ⟨g, hg, by simpa using hid⟩
        have hmap : (t.files.map fun x => if x.id == f.id then
            { x with hash := f.hash, language := f.language, size, lineCount, modifiedMs := f.modifiedMs } else x) =
            Store.withEntry { f with project := g.project, path := g.path, size, lineCount } t.files := by
          simp only [Store.withEntry, upsert, hany, if_true]
          refine List.map_congr_left fun x hx => ?_
          by_cases hx' : x.id = f.id
          · rw [List.inj_on_of_nodup_map hn hx hg (hx'.trans hid.symm), if_pos (by simpa using hid),
              if_pos (by simpa using hid), hid]
          · rw [if_neg (by simpa using hx'), if_neg (by simpa using hx')]
        simp only [bind, Except.bind, hany, if_true, hmap]
        rfl
      | none =>
        have hany : t.files.any (·.id == f.id) = false := by
          rw [List.any_eq_false]
          exact List.find?_eq_none.1 hfind
        simp only [bind, Except.bind, hany, Bool.false_eq_true, if_false]
        split
        · rfl
        · simp only [pure, Except.pure, Except.map, Store.withEntry, upsert, hany]
          rfl

/-- Elements, and those before that have none of their keys. -/
def replacedBy {α : Type} (key : α → String) (old new : List α) : List α :=
  old.filter (fun x => decide (key x ∉ new.map key)) ++ new

section Replaced

variable {α : Type} {key : α → String} {old old' new new' : List α} {x : α}

theorem mem_replacedBy : x ∈ replacedBy key old new ↔ (x ∈ old ∧ key x ∉ new.map key) ∨ x ∈ new := by
  rw [replacedBy, List.mem_append, List.mem_filter, decide_eq_true_iff]

@[simp] theorem replacedBy_nil : replacedBy key old [] = old := by simp [replacedBy]

theorem replacedBy_perm (hold : old.Perm old') (hnew : new.Perm new') :
    (replacedBy key old new).Perm (replacedBy key old' new') := by
  have hkeys : ∀ x, decide (key x ∉ new.map key) = decide (key x ∉ new'.map key) := fun x => by
    rw [decide_eq_decide, (hnew.map key).mem_iff]
  unfold replacedBy
  rw [List.filter_congr fun x _ => hkeys x]
  exact (hold.filter _).append hnew

theorem replacedBy_singleton : (replacedBy key old [x]).Perm (x :: old.filter (key · != key x)) := by
  have hkeys : ∀ y ∈ old, decide (key y ∉ [x].map key) = (key y != key x) := fun y _ => by
    rw [Bool.eq_iff_iff]
    simp
  rw [replacedBy, List.filter_congr hkeys]
  exact List.perm_append_singleton x _

/-- Twice replaced is once replaced by both if the keys are apart. -/
theorem replacedBy_replacedBy (h : ∀ x ∈ new, ∀ y ∈ new', key x ≠ key y) :
    replacedBy key (replacedBy key old new) new' = replacedBy key old (new ++ new') := by
  have hnew : new.filter (fun x => decide (key x ∉ new'.map key)) = new := by
    refine List.filter_eq_self.2 fun x hx => decide_eq_true fun hm => ?_
    obtain ⟨y, hy, he⟩ := List.mem_map.1 hm
    exact h x hx y hy he.symm
  have hold : ∀ x ∈ old, (decide (key x ∉ new'.map key) && decide (key x ∉ new.map key)) =
      decide (key x ∉ (new ++ new').map key) := by
    intro x _
    rw [Bool.eq_iff_iff]
    simp only [Bool.and_eq_true, decide_eq_true_iff, List.map_append, List.mem_append, not_or]
    exact and_comm
  simp only [replacedBy, List.filter_append, List.filter_filter]
  rw [hnew, List.filter_congr hold, List.append_assoc]

theorem filter_replacedBy {keep : α → Bool} (h : ∀ x ∈ new, keep x = true) :
    (replacedBy key old new).filter keep = replacedBy key (old.filter keep) new := by
  rw [replacedBy, List.filter_append, List.filter_eq_self.2 h, List.filter_filter, replacedBy, List.filter_filter]
  exact congrArg (· ++ new) (List.filter_congr fun x _ => Bool.and_comm _ _)

end Replaced

namespace Store

open CodeIndex.Embedding

variable {s s' t : Store} {σ : Settings} {es es' : List FileEntry} {f g : FileEntry} {r : Record}

/-- Each entry and each record is under an identifier of its own. -/
structure Distinct (s : Store) : Prop where
  sane : s.Sane
  ids : (s.entries.map (·.id)).Nodup
  recordIds : (s.rows.map (·.id)).Nodup

/-- What a store makes of an entry, or why it refuses it. -/
def Settings.filed (σ : Settings) (es : List FileEntry) (f : FileEntry) : Except StoreError FileEntry :=
  match σ.bounded with
  | true => TableStore.filed es f
  | false => .ok f

/-- A store puts the entry that it files, and refuses one for the same reason. -/
theorem putFile_filed (hn : (s.entries.map (·.id)).Nodup) (f : FileEntry) :
    (∃ g s', s.settings.filed s.entries f = .ok g ∧ s.putFile f = .ok s' ∧ s'.entries = withEntry g s.entries) ∨
      ∃ e, s.settings.filed s.entries f = .error e ∧ s.putFile f = .error e := by
  cases s with
  | memory m => exact .inl ⟨f, _, rfl, rfl, rfl⟩
  | table t =>
    have hput : (table t).putFile f = ((TableStore.filed t.files f).map fun g =>
        { t with updatedAt := upsert Prod.fst (f.id, t.now) t.updatedAt, files := withEntry g t.files }).map table :=
      congrArg (·.map table) (TableStore.putFile_eq hn f)
    rw [hput]
    change (∃ g s', TableStore.filed t.files f = .ok g ∧ _) ∨ ∃ e, TableStore.filed t.files f = .error e ∧ _
    cases TableStore.filed t.files f with
    | error e => exact .inr ⟨e, rfl, rfl⟩
    | ok g => exact .inl ⟨g, _, rfl, rfl, rfl⟩

/-- Whether a store takes a record depends on its settings alone. -/
theorem put_congr (h : s.settings = t.settings) (r : Record) :
    (∃ s' t', s.put r = .ok s' ∧ t.put r = .ok t') ∨ ∃ e, s.put r = .error e ∧ t.put r = .error e := by
  cases s with
  | memory m =>
    cases t with
    | table t => cases congrArg Settings.bounded h
    | memory n =>
      have hlimit : m.checkLimit r.dimensions = n.checkLimit r.dimensions := by
        have hl : m.limit = n.limit := congrArg Settings.limit h
        unfold MemoryStore.checkLimit
        rw [hl]
      simp only [put, MemoryStore.put, hlimit]
      cases n.checkLimit r.dimensions with
      | error e => exact .inr ⟨e, rfl, rfl⟩
      | ok => exact .inl ⟨_, _, rfl, rfl⟩
  | table t₁ =>
    cases t with
    | memory m => cases congrArg Settings.bounded h
    | table t₂ =>
      have hlimit : t₁.checkLimit r.dimensions = t₂.checkLimit r.dimensions := by
        have hl : t₁.limit = t₂.limit := congrArg Settings.limit h
        unfold TableStore.checkLimit
        rw [hl]
      simp only [put, TableStore.put, hlimit]
      cases t₂.checkLimit r.dimensions with
      | error e => exact .inr ⟨e, rfl, rfl⟩
      | ok =>
        cases TableStore.column r.index with
        | error e => exact .inr ⟨e, rfl, rfl⟩
        | ok index =>
          cases TableStore.column r.dimensions with
          | error e => exact .inr ⟨e, rfl, rfl⟩
          | ok dimensions =>
            cases TableStore.column r.startLine with
            | error e => exact .inr ⟨e, rfl, rfl⟩
            | ok startLine =>
              cases TableStore.column r.endLine with
              | error e => exact .inr ⟨e, rfl, rfl⟩
              | ok endLine => exact .inl ⟨_, _, rfl, rfl⟩

namespace Distinct

theorem filtered (h : s.Distinct) (p : FileEntry → Bool) (q : Record → Bool) (he : s'.entries = s.entries.filter p)
    (hr : s'.rows = s.rows.filter q) (hk : s.Keeps s') : s'.Distinct where
  sane := hk.sane h.sane
  ids := by
    rw [he]
    exact h.ids.sublist (List.filter_sublist.map _)
  recordIds := by
    rw [hr]
    exact h.recordIds.sublist (List.filter_sublist.map _)

theorem kept (h : s.Distinct) (he : s'.entries = s.entries) (hr : s'.rows = s.rows) (hk : s.Keeps s') : s'.Distinct :=
  ⟨hk.sane h.sane, he ▸ h.ids, hr ▸ h.recordIds⟩

theorem put (h : s.Distinct) (hp : s.put r = .ok s') : s'.Distinct where
  sane := (keeps_put hp).sane h.sane
  ids := by
    rw [entries_put hp]
    exact h.ids
  recordIds := by
    rw [((rows_put_perm hp h.recordIds).map _).nodup_iff]
    exact nodup_replaced r h.recordIds

theorem putFile (h : s.Distinct) (hp : s.putFile f = .ok s') : s'.Distinct where
  sane := (keeps_putFile hp).sane h.sane
  ids := by
    obtain ⟨g, s₁, -, hput, he⟩ | ⟨e, -, hput⟩ := putFile_filed h.ids f
    · cases hp.symm.trans hput
      rw [he, ((withEntry_perm h.ids).map _).nodup_iff]
      exact nodup_replaced g h.ids
    · cases hp.symm.trans hput
  recordIds := by
    rw [rows_putFile hp]
    exact h.recordIds

theorem settle {x : Except StoreError Store} (h : s.Distinct) (hx : ∀ s', x = .ok s' → s'.Distinct) :
    (s.settle x).1.Distinct := by
  cases x with
  | ok s' => exact hx s' rfl
  | error e => exact h

theorem serve (h : s.Distinct) (q : Request) : (s.serve q).1.Distinct := by
  cases q with
  | putFile f => exact h.settle fun _ => h.putFile
  | deleteFile id => exact h.filtered _ _ (entries_deleteFile s id) (rows_deleteFile s id) (keeps_deleteFile s id)
  | put r => exact h.settle fun _ => h.put
  | deleteRecords fileId =>
    exact h.filtered (fun _ => true) _ (by simp [Store.serve]) (rows_deleteRecords s fileId)
      (keeps_deleteRecords s fileId)
  | widen dimensions =>
    refine h.settle fun s' hw => ?_
    obtain ⟨hr, he, hk, -⟩ := widen_spec hw h.sane
    exact h.kept he hr hk
  | clear project => exact h.filtered _ _ (entries_clear s project) (rows_clear s project) (keeps_clear s project)
  | tick now => exact h.kept (entries_atTime s now) (rows_atTime s now) (keeps_atTime s now)
  | _ => exact h

theorem reopen (h : s.Distinct) : s.reopen.Distinct := by
  cases s with
  | memory m => exact ⟨trivial, List.nodup_nil, List.nodup_nil⟩
  | table t => exact ⟨h.sane, h.ids, h.recordIds⟩

end Distinct

/-- The stores that requests lead to from an empty one, if they are opened again in between or not. -/
inductive Reached : Store → Prop where
  | memory (limit : Option Nat) : Reached (.memory { limit })
  | table (limit : Option Nat) : Reached (.table { limit })
  | serve {s : Store} (q : Request) : Reached s → Reached (s.serve q).1
  | reopen {s : Store} : Reached s → Reached s.reopen

/-- Whatever a store was asked, each entry and each record is under an identifier of its own. -/
theorem Reached.distinct (h : Reached s) : s.Distinct := by
  induction h with
  | memory limit => exact ⟨trivial, List.nodup_nil, List.nodup_nil⟩
  | table limit => exact ⟨Nat.two_pow_pos 63, List.nodup_nil, List.nodup_nil⟩
  | serve q _ ih => exact ih.serve q
  | reopen _ ih => exact ih.reopen

theorem find?_id (hn : (es.map (·.id)).Nodup) {id : String} :
    es.find? (·.id == id) = some g ↔ g ∈ es ∧ g.id = id := by
  constructor
  · exact fun h => ⟨List.mem_of_find?_eq_some h, by simpa using List.find?_some h⟩
  · rintro ⟨hg, hid⟩
    cases hf : es.find? (·.id == id) with
    | none => exact absurd hid (by simpa using List.find?_eq_none.1 hf g hg)
    | some x =>
      have hx : x.id = id := by simpa using List.find?_some hf
      rw [List.inj_on_of_nodup_map hn (List.mem_of_find?_eq_some hf) hg (hx.trans hid.symm)]

/-- What is filed goes by the entry with its identifier, and by whether its project and path are taken. -/
theorem filed_congr (hn : (es.map (·.id)).Nodup) (hn' : (es'.map (·.id)).Nodup)
    (hid : ∀ g, g.id = f.id → (g ∈ es ↔ g ∈ es'))
    (hkey : σ.bounded = true → ((∃ g ∈ es, g.project = f.project ∧ g.path = normalizePath f.path) ↔
      ∃ g ∈ es', g.project = f.project ∧ g.path = normalizePath f.path)) : σ.filed es f = σ.filed es' f := by
  unfold Settings.filed
  split
  · rename_i hbounded
    have hfind : es.find? (·.id == f.id) = es'.find? (·.id == f.id) := by
      refine Option.ext fun g => ?_
      rw [find?_id hn, find?_id hn']
      exact and_congr_left (hid g)
    have hany : (es.any fun g => g.project == f.project && g.path == normalizePath f.path) =
        es'.any fun g => g.project == f.project && g.path == normalizePath f.path := by
      rw [Bool.eq_iff_iff]
      simpa using hkey hbounded
    unfold TableStore.filed
    rw [hfind, hany]
  · rfl

/-- An entry is filed under its identifier. A table files it where the one with its identifier was, or else under its
own project and path. -/
theorem filed_cases (h : σ.filed es f = .ok g) :
    g.id = f.id ∧ (σ.bounded = true →
      (∃ x, es.find? (·.id == f.id) = some x ∧ g.project = x.project ∧ g.path = x.path) ∨
        es.find? (·.id == f.id) = none ∧ g.project = f.project ∧ g.path = normalizePath f.path) := by
  unfold Settings.filed at h
  split at h
  · unfold TableStore.filed at h
    cases hsize : TableStore.column f.size with
    | error e =>
      rw [hsize] at h
      cases h
    | ok size =>
      cases hlines : TableStore.column f.lineCount with
      | error e =>
        rw [hsize, hlines] at h
        cases h
      | ok lineCount =>
        rw [hsize, hlines] at h
        cases hfind : es.find? (·.id == f.id) with
        | some x =>
          simp only [hfind] at h
          cases h
          exact ⟨rfl, fun _ => .inl ⟨x, rfl, rfl, rfl⟩⟩
        | none =>
          simp only [hfind, bind, Except.bind] at h
          split at h <;> cases h
          exact ⟨rfl, fun _ => .inr ⟨rfl, rfl, rfl⟩⟩
  · rename_i hbounded
    cases h
    exact ⟨rfl, fun hb => absurd (hb.symm.trans hbounded) Bool.noConfusion⟩

/-- But for its project and its path an entry is filed as it is. -/
theorem filed_values (h : σ.filed es f = .ok g) : g = { f with project := g.project, path := g.path } := by
  unfold Settings.filed at h
  split at h
  · unfold TableStore.filed at h
    cases hsize : TableStore.column f.size with
    | error e =>
      rw [hsize] at h
      cases h
    | ok size =>
      cases hlines : TableStore.column f.lineCount with
      | error e =>
        rw [hsize, hlines] at h
        cases h
      | ok lineCount =>
        rw [hsize, hlines, column_eq hsize, column_eq hlines] at h
        simp only [bind, Except.bind] at h
        repeat' split at h
        all_goals cases h
        all_goals rfl
  · cases h
    rfl

/-- What a store holds for an entry that it took. A table leaves the one with its identifier its project and its path,
and puts the path of a new one into its normal form; other stores hold the entry as it is. -/
structure FiledAs (s : Store) (f g : FileEntry) : Prop where
  memory : s.settings.bounded = false → g = f
  known : s.settings.bounded = true → ∀ m ∈ s.entries, m.id = f.id → g = { f with project := m.project, path := m.path }
  new : s.settings.bounded = true → (∀ m ∈ s.entries, m.id ≠ f.id) → g = { f with path := normalizePath f.path }

theorem filedAs (hn : (s.entries.map (·.id)).Nodup) (h : s.settings.filed s.entries f = .ok g) : s.FiledAs f g := by
  have hvalues := filed_values h
  refine ⟨fun hb => ?_, fun hb m hm hid => ?_, fun hb hnew => ?_⟩
  · unfold Settings.filed at h
    rw [hb] at h
    cases h
    rfl
  · obtain ⟨x, hx, hproject, hpath⟩ | ⟨hnone, -⟩ := (filed_cases h).2 hb
    · rw [(find?_id hn).2 ⟨hm, hid⟩] at hx
      cases hx
      rwa [hproject, hpath] at hvalues
    · rw [(find?_id hn).2 ⟨hm, hid⟩] at hnone
      cases hnone
  · obtain ⟨x, hx, -⟩ | ⟨-, hproject, hpath⟩ := (filed_cases h).2 hb
    · obtain ⟨hx, hid⟩ := (find?_id hn).1 hx
      exact absurd hid (hnew x hx)
    · rwa [hproject, hpath] at hvalues

end Store

end CodeIndex
