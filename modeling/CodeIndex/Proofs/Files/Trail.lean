import CodeIndex.Proofs.Files.Naming

/-!
Where paths lead in a tree. A path that is followed leaves a trail of names, each an entry of what the ones before it
lead to, and the path written with these names leads there again.
-/

namespace CodeIndex

/-- Names as a relative path. -/
theorem joined_eq (names : List String) : "/".intercalate names = Path.ofPieces (names.map String.toList) := by
  rw [Path.ofPieces, ← String.toList_inj, String.toList_intercalate]
  exact String.toList_ofList.symm

theorem splitOn_joined {names : List String} (h : ∀ name ∈ names, '/' ∉ name.toList) (hne : names ≠ []) :
    ("/".intercalate names).toList.splitOn '/' = names.map String.toList := by
  rw [joined_eq, Path.ofPieces, String.toList_ofList]
  refine List.splitOn_intercalate '/' (fun p hp => ?_) (by simpa using hne)
  obtain ⟨name, hn, rfl⟩ := List.mem_map.1 hp
  exact h name hn

namespace FileTree

theorem toList_pathOf (names : List String) : (pathOf names).toList = '/' :: ("/".intercalate names).toList := by
  rw [pathOf, String.toList_append]
  rfl

/-- A name that a path goes down by. -/
structure IsStep (name : String) : Prop where
  busy : Path.isIdle name.toList = false
  notUp : name.toList ≠ ['.', '.']
  slash : '/' ∉ name.toList

/-- A trail from a root, with what it leads to. -/
inductive Leads (root : FileTree) : List (String × FileTree) → FileTree → Prop where
  | start : Leads root [] root
  | down {trail : List (String × FileTree)} {t t' : FileTree} {name : String} :
      Leads root trail t → IsStep name → lookup name t.entries = some t' → Leads root ((name, t') :: trail) t'

/-- The names of a trail, from the root on. -/
def namesOn (trail : List (String × FileTree)) : List String := (trail.map (·.1)).reverse

variable {root t : FileTree} {trail trail' : List (String × FileTree)} {path : String} {names : List String}

@[simp] theorem namesOn_nil : namesOn [] = [] := rfl

@[simp] theorem namesOn_cons (name : String) (t : FileTree) :
    namesOn ((name, t) :: trail) = namesOn trail ++ [name] := by simp [namesOn]

theorem Leads.last_eq (h : Leads root trail t) : (trail.head?.map (·.2)).getD root = t := by
  cases h <;> rfl

theorem Leads.isStep (h : Leads root trail t) : ∀ name ∈ namesOn trail, IsStep name := by
  induction h with
  | start => nofun
  | down _ hstep _ ih =>
    rw [namesOn_cons]
    exact List.forall_mem_append.2 ⟨ih, List.forall_mem_singleton.2 hstep⟩

theorem Leads.back (h : Leads root trail t) : ∃ t', Leads root (trail.drop 1) t' := by
  cases h with
  | start => exact ⟨root, .start⟩
  | down h _ _ => exact ⟨_, h⟩

/-- What is entered is a directory. -/
theorem isDir_of_lookup {name : String} {t' : FileTree} (h : lookup name t.entries = some t') : t.isDir = true := by
  cases t with
  | file content => cases h
  | dir es => rfl

theorem get?_append (names names' : List String) (t : FileTree) :
    t.get? (names ++ names') = (t.get? names).bind (get? names') := by
  induction names generalizing t with
  | nil => rfl
  | cons name names ih =>
    rw [List.cons_append, get?, get?]
    cases lookup name t.entries with
    | none => rfl
    | some t' => exact ih t'

theorem Leads.get? (h : Leads root trail t) : root.get? (namesOn trail) = some t := by
  induction h with
  | start => rfl
  | down _ _ hlookup ih => rw [namesOn_cons, get?_append, ih, Option.bind_some, FileTree.get?, hlookup]; rfl

theorem follow_leads {pieces : List (List Char)} (h : follow root trail pieces = .ok trail')
    (hslash : ∀ p ∈ pieces, '/' ∉ p) (ht : Leads root trail t) : ∃ t', Leads root trail' t' := by
  induction pieces generalizing trail t with
  | nil =>
    cases h
    exact ⟨t, ht⟩
  | cons piece rest ih =>
    obtain ⟨hpiece, hrest⟩ := List.forall_mem_cons.1 hslash
    unfold follow at h
    rw [ht.last_eq] at h
    cases t with
    | file content => cases h
    | dir es =>
      dsimp only at h
      split at h
      · exact ih h hrest ht
      · rename_i hbusy
        split at h
        · obtain ⟨t', ht'⟩ := ht.back
          exact ih h hrest ht'
        · rename_i hup
          split at h
          · cases h
          · rename_i t' hlookup
            have hstep : IsStep (.ofList piece) :=
              ⟨by simpa [Path.isIdle] using hbusy, by simpa using hup, by simpa using hpiece⟩
            exact ih h hrest (ht.down hstep hlookup)

/-- The names of a trail lead along the trail. -/
theorem Leads.follow (h : Leads root trail t) (rest : List (List Char)) :
    FileTree.follow root [] ((namesOn trail).map String.toList ++ rest) = FileTree.follow root trail rest := by
  induction h generalizing rest with
  | start => rfl
  | @down trail t t' name h hstep hlookup ih =>
    obtain ⟨hempty, hdot⟩ : name.toList ≠ [] ∧ name.toList ≠ ['.'] := by simpa [Path.isIdle] using hstep.busy
    cases t with
    | file content => cases hlookup
    | dir es =>
      have hes : lookup name es = some t' := hlookup
      rw [namesOn_cons, List.map_append, List.append_assoc, ih, List.map_singleton, List.singleton_append,
        FileTree.follow, h.last_eq]
      simp [hempty, hdot, hstep.notUp, hes]

theorem resolve_leads (h : root.resolve path = .ok (names, t)) :
    root.isDir = true ∧ ∃ trail, Leads root trail t ∧ names = namesOn trail := by
  unfold resolve at h
  cases hf : FileTree.follow root [] (path.toList.splitOn '/') with
  | error e =>
    rw [hf] at h
    cases h
  | ok trail =>
    rw [hf] at h
    cases h
    obtain ⟨t, ht⟩ := follow_leads hf (Path.slash_not_mem_splitOn _) .start
    refine ⟨?_, trail, ht.last_eq.symm ▸ ht, rfl⟩
    -- there is always a first piece, which is looked for in a directory
    cases root with
    | dir es => rfl
    | file content =>
      cases hs : path.toList.splitOn '/' with
      | nil => exact absurd hs (by simp)
      | cons piece rest =>
        rw [hs] at hf
        cases hf

theorem resolve_pathOf (hroot : root.isDir = true) (h : Leads root trail t) :
    root.resolve (pathOf (namesOn trail)) = .ok (namesOn trail, t) := by
  have hfollow : FileTree.follow root [] ((pathOf (namesOn trail)).toList.splitOn '/') = .ok trail := by
    cases root with
    | file content => cases hroot
    | dir es =>
      rw [toList_pathOf, List.splitOn_cons_eq_if_modifyHead, if_pos (beq_self_eq_true _), FileTree.follow]
      cases h with
      | start => rfl
      | down h hstep hlookup =>
        have hall := h.down hstep hlookup
        have hnames := hall.follow []
        rw [List.append_nil] at hnames
        rw [splitOn_joined (fun name hn => (hall.isStep name hn).slash) (by simp)]
        exact hnames
  rw [resolve, hfollow, Except.map, h.last_eq]
  rfl

end FileTree

end CodeIndex
