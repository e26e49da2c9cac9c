import CodeIndex.Proofs.Files.Walk
import CodeIndex.Proofs.Store.Spelling

/-!
Which files share an identity. On paths that hold no backslash different files are told apart by their relative paths and
by their identifiers. A backslash is read as a slash, so that a name with one may be taken for a directory and a name.
-/

namespace CodeIndex

/-- The characters that are left when all slashes and pairs of dot and slash in front are dropped. -/
def dropIdle : List Char → List Char
  | '/' :: rest => dropIdle rest
  | '.' :: '/' :: rest => dropIdle rest
  | cs => cs

/-- What counts of a path, whatever the style of its separators. -/
def bare (path : String) : List Char := dropIdle (slashed path)

/-- Bringing a path into normal form leaves what counts. -/
theorem bare_normalizePath (path : String) : bare (normalizePath path) = bare path := by
  have hpairs : ∀ cs, dropIdle (dropDotSlashes cs) = dropIdle cs := by
    intro cs
    fun_induction dropDotSlashes cs with
    | case1 rest ih => exact ih
    | case2 => rfl
  have hslashes : ∀ cs, dropIdle (cs.dropWhile (· == '/')) = dropIdle cs := by
    intro cs
    induction cs with
    | nil => rfl
    | cons c cs ih =>
      rw [List.dropWhile_cons]
      split
      · rename_i hc
        rw [beq_iff_eq.1 hc, ih]
        rfl
      · rfl
  rw [bare, slashed_normalizePath, toList_normalizePath, hslashes, hpairs, bare]

/-- Two paths are apart though backslashes are slashes: they hold none, or differ in what counts. -/
def ToldApart (s s' : String) : Prop := ('\\' ∉ s.toList ∧ '\\' ∉ s'.toList) ∨ bare s ≠ bare s'

/-- The text of names below a directory, as they stand in an absolute path. -/
def Under (above : List String) (path rel : String) : Prop :=
  ∃ names, names ≠ [] ∧ path = FileTree.pathOf (above ++ names) ∧ rel = "/".intercalate names

theorem joined_cancel (above : List (List Char)) {rest rest' : List (List Char)} (hne : rest ≠ []) (hne' : rest' ≠ [])
    (h : ['/'].intercalate (above ++ rest) = ['/'].intercalate (above ++ rest')) :
    ['/'].intercalate rest = ['/'].intercalate rest' := by
  induction above with
  | nil => exact h
  | cons p above ih =>
    obtain ⟨q, qs, hq⟩ := List.exists_cons_of_ne_nil (List.append_ne_nil_of_right_ne_nil above hne)
    obtain ⟨r, rs, hr⟩ := List.exists_cons_of_ne_nil (List.append_ne_nil_of_right_ne_nil above hne')
    rw [List.cons_append, List.cons_append, hq, hr, List.intercalate_cons_cons, List.intercalate_cons_cons] at h
    rw [hq, hr] at ih
    exact ih (List.append_cancel_left h)

/-- A path tells its text below a directory. -/
theorem Under.unique {above : List String} {path rel rel' : String} (h : Under above path rel)
    (h' : Under above path rel') : rel = rel' := by
  obtain ⟨names, hne, rfl, rfl⟩ := h
  obtain ⟨names', hne', hpath, rfl⟩ := h'
  have hjoined := (List.cons.inj ((FileTree.toList_pathOf _).symm.trans
    ((congrArg String.toList hpath).trans (FileTree.toList_pathOf _)))).2
  simp only [joined_eq, Path.ofPieces, String.toList_ofList, List.map_append] at hjoined
  rw [joined_eq, joined_eq, Path.ofPieces, Path.ofPieces,
    joined_cancel _ (by simpa using hne) (by simpa using hne') hjoined]

namespace Files

open FileTree

/-- A name that an entry of a directory can have. -/
structure IsEntryName (name : String) : Prop where
  busy : Path.isIdle name.toList = false
  slash : '/' ∉ name.toList

/-- On a path without backslashes they are in no name. -/
theorem isName_of_joined {names : List String} (h : ∀ name ∈ names, IsEntryName name) (hne : names ≠ [])
    (hb : '\\' ∉ ("/".intercalate names).toList) : ∀ name ∈ names, IsName name := by
  intro name hname
  refine ⟨(h name hname).busy, (h name hname).slash, fun hm => hb ?_⟩
  refine Path.mem_of_mem_splitOn (p := name.toList) ?_ hm
  rw [splitOn_joined (fun name hn => (h name hn).slash) hne]
  exact List.mem_map_of_mem hname

variable {root t : FileTree} {dir : String} {rules : Ignore.Rules} {maxBytes : Nat} {files : List Discovered}
  {above : List String} {texts : Set String} {project : String}

/-- A file that is found is at a path below the directory, and named by that path in normal form. -/
theorem discover?_under (hroot : root.NamedBy IsEntryName) (hdir : root.resolve dir = .ok (above, t))
    (h : discover? root dir rules maxBytes = some files) {f : Discovered} (hf : f ∈ files) :
    ∃ names, names ≠ [] ∧ (∀ name ∈ names, IsEntryName name) ∧ f.path = pathOf (above ++ names) ∧
      f.rel = normalizePath ("/".intercalate names) := by
  obtain ⟨above', t', hdir', -, places, -, hplaces, rfl⟩ := discover?_places h hroot
  cases hdir.symm.trans hdir'
  obtain ⟨p, hp, rfl⟩ := List.mem_map.1 hf
  obtain ⟨hne, hnames⟩ := hplaces p hp
  exact ⟨p.1, hne, hnames, rfl, rfl⟩

/-- Files are named differently and have different identifiers exactly if their paths differ in normal form, brought
into it twice. Those of different files do if they are told apart. -/
theorem discovered_apart (hroot : root.NamedBy IsEntryName) (hdir : root.resolve dir = .ok (above, t))
    (h : discover? root dir rules maxBytes = some files) (hids : Set.InjOn (Digest.Uuid.ofName idSpace) texts)
    (hkeys : ∀ f ∈ files, fileKey project f.rel ∈ texts) :
    (∀ f ∈ files, ∃ s, Under above f.path s) ∧ ∀ f ∈ files, ∀ g ∈ files, ∀ s s', Under above f.path s →
      Under above g.path s' →
        (f.rel ≠ g.rel ∧ fileId project f.rel ≠ fileId project g.rel ↔
          normalizePath (normalizePath s) ≠ normalizePath (normalizePath s')) ∧
        (f.path ≠ g.path → ToldApart s s' → f.rel ≠ g.rel ∧ fileId project f.rel ≠ fileId project g.rel) := by
  refine ⟨fun f hf => ?_, fun f hf g hg s s' hs hs' => ?_⟩
  · obtain ⟨names, hnames, -, hpath, -⟩ := discover?_under hroot hdir h hf
    exact ⟨_, names, hnames, hpath, rfl⟩
  obtain ⟨names, hnonempty, hnames, hpath, hrel⟩ := discover?_under hroot hdir h hf
  obtain ⟨names', hnonempty', hnames', hpath', hrel'⟩ := discover?_under hroot hdir h hg
  obtain rfl := hs.unique ⟨names, hnonempty, hpath, rfl⟩
  obtain rfl := hs'.unique ⟨names', hnonempty', hpath', rfl⟩
  have hexact : f.rel ≠ g.rel ∧ fileId project f.rel ≠ fileId project g.rel ↔
      normalizePath f.rel ≠ normalizePath g.rel := by
    constructor
    · rintro ⟨-, hne⟩ he
      exact hne (by rw [fileId, fileKey, he, fileId, fileKey])
    · exact fun hne => ⟨fun he => hne (congrArg normalizePath he),
        fun he => hne (fileKey_inj (hids (hkeys f hf) (hkeys g hg) he))⟩
  rw [hexact, hrel, hrel']
  refine ⟨Iff.rfl, fun hne hapart => ?_⟩
  rcases hapart with ⟨hb, hb'⟩ | hbare
  · have hplain := isName_of_joined hnames hnonempty hb
    have hplain' := isName_of_joined hnames' hnonempty' hb'
    rw [normalizePath_joined hplain, normalizePath_joined hplain, normalizePath_joined hplain',
      normalizePath_joined hplain']
    intro he
    rw [joined_inj hplain hnonempty hplain' hnonempty' he, ← hpath'] at hpath
    exact hne hpath
  · intro he
    have hsame := congrArg bare he
    rw [bare_normalizePath, bare_normalizePath, bare_normalizePath, bare_normalizePath] at hsame
    exact hbare hsame

/-- An entry and a file beside it. -/
def withFile (entry : String × FileTree) (name : String) : FileTree := .dir [entry, (name, .file "x".toUTF8)]

theorem named_withFile {entry : String × FileTree} {name : String} (hentry : IsEntryName entry.1)
    (htree : entry.2.NamedBy IsEntryName) (hname : IsEntryName name) (hne : entry.1 ≠ name) :
    (withFile entry name).NamedBy IsEntryName :=
  ⟨by simpa using hne, hentry, htree, hname, trivial, trivial⟩

/-- The paths that are found and what their files are named by. -/
def namings (root : FileTree) : Option (List (String × String)) :=
  (discover? root "/" (.builtin "/") 1).map fun files => files.map fun f => (f.path, f.rel)

theorem two_found {root : FileTree} {path path' rel rel' : String}
    (h : namings root = some [(path, rel), (path', rel')]) :
    ∃ f g, discover? root "/" (.builtin "/") 1 = some [f, g] ∧ (f.path = path ∧ f.rel = rel) ∧
      g.path = path' ∧ g.rel = rel' := by
  obtain ⟨files, hfiles, hnamed⟩ := Option.map_eq_some_iff.1 h
  obtain ⟨f, rest, rfl, hf, hrest⟩ := List.map_eq_cons_iff.1 hnamed
  obtain ⟨g, rest, rfl, hg, hrest⟩ := List.map_eq_cons_iff.1 hrest
  obtain rfl := List.map_eq_nil_iff.1 hrest
  exact ⟨f, g, hfiles, Prod.mk.inj hf, Prod.mk.inj hg⟩

theorem discovered_apart_backslash :
    ∃ files, discover? (withFile ("a.md", .file "x".toUTF8) "\\b.md") "/" (.builtin "/") 1 = some files ∧
      ∃ f ∈ files, ∃ g ∈ files, f.path = "/a.md" ∧ g.path = "/\\b.md" ∧ f.rel ≠ g.rel ∧
        fileId "p" f.rel ≠ fileId "p" g.rel := by
  set root := withFile ("a.md", .file "x".toUTF8) "\\b.md" with hroot
  have hview : namings root = some [("/a.md", "a.md"), ("/\\b.md", "b.md")] := by
    decide +kernel
  obtain ⟨f, g, hfiles, ⟨hpath, hrel⟩, hpath', hrel'⟩ := two_found hview
  have hids : ([fileKey "p" "a.md", fileKey "p" "b.md"].map (Digest.Uuid.ofName idSpace)).Nodup := by
    obtain ⟨ha, hb, -⟩ := ids_of_two
    change [fileId "p" "a.md", fileId "p" "b.md"].Nodup
    rw [ha, hb]
    decide
  have hkeys : ∀ x ∈ [f, g], fileKey "p" x.rel ∈ {text | text ∈ [fileKey "p" "a.md", fileKey "p" "b.md"]} := by
    simp [hrel, hrel']
  have hnamed : root.NamedBy IsEntryName :=
    named_withFile ⟨by decide, by decide⟩ trivial ⟨by decide, by decide⟩ (by decide)
  have hdir : root.resolve "/" = .ok ([], root) := rfl
  obtain ⟨-, hapart⟩ := discovered_apart hnamed hdir hfiles
    (fun x hx y hy => List.inj_on_of_nodup_map hids hx hy) hkeys
  refine ⟨_, hfiles, f, by simp, g, by simp, hpath, hpath', ?_⟩
  have hs : Under [] f.path "a.md" := ⟨["a.md"], by simp, hpath, rfl⟩
  have hs' : Under [] g.path "\\b.md" := ⟨["\\b.md"], by simp, hpath', rfl⟩
  refine (hapart f (by simp) g (by simp) _ _ hs hs').2 ?_ (.inr (by decide))
  rw [hpath, hpath']
  decide

/-- A file in a directory and one whose name is its path with a backslash. -/
theorem identity_shared :
    (withFile ("a", .dir [("b.md", .file "x".toUTF8)]) "a\\b.md").NamedBy IsEntryName ∧
      ∃ files, discover? (withFile ("a", .dir [("b.md", .file "x".toUTF8)]) "a\\b.md") "/" (.builtin "/") 1 =
          some files ∧
        ∃ f ∈ files, ∃ g ∈ files, f.path ≠ g.path ∧ f.rel = g.rel ∧
          ∀ project, fileId project f.rel = fileId project g.rel := by
  have hview : namings (withFile ("a", .dir [("b.md", .file "x".toUTF8)]) "a\\b.md") =
      some [("/a/b.md", "a/b.md"), ("/a\\b.md", "a/b.md")] := by
    decide +kernel
  refine ⟨named_withFile ⟨by decide, by decide⟩ ?_ ⟨by decide, by decide⟩ (by decide), ?_⟩
  · exact ⟨by simp, ⟨by decide, by decide⟩, trivial, trivial⟩
  obtain ⟨f, g, hfiles, ⟨hpath, hrel⟩, hpath', hrel'⟩ := two_found hview
  refine ⟨_, hfiles, f, by simp, g, by simp, ?_, hrel.trans hrel'.symm, fun project => ?_⟩
  · rw [hpath, hpath']
    decide
  · rw [hrel, hrel']

end Files

end CodeIndex
