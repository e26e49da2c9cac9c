import CodeIndex.Proofs.Files.Trail
import Mathlib.Data.List.Induction
import Mathlib.Data.List.Infix

/-!
What project a directory belongs to. A project is told again at its root, and at every directory below a repository's root
that is in no nearer repository, as long as the files of git stay as they are. Nothing else of the files counts, and of
canonical paths only that they are their own and lead through directories.
-/

namespace CodeIndex

open FileTree

namespace FileSystem

/-- What canonical paths promise: there is no link on them, and so none above them. -/
structure Lawful (files : FileSystem) : Prop where
  settled : ∀ {path names}, files.canonical path = .ok names → files.canonical (pathOf names) = .ok names
  above : ∀ {path names name}, files.canonical path = .ok (names ++ [name]) →
    files.canonical (pathOf names) = .ok names ∧ files.isDir names = true

variable {files : FileSystem} {path : String} {names root : List String}

/-- Directories above a canonical one are reached by their names. -/
theorem Lawful.upward (h : files.Lawful) (hnames : files.canonical path = .ok names) (hdir : files.isDir names = true)
    (hroot : root <+: names) : files.canonical (pathOf root) = .ok root ∧ files.isDir root = true := by
  obtain ⟨below, rfl⟩ := hroot
  induction below using List.reverseRecOn generalizing path with
  | nil =>
    rw [List.append_nil] at hnames hdir
    exact ⟨h.settled hnames, hdir⟩
  | append_singleton below name ih =>
    rw [← List.append_assoc] at hnames
    obtain ⟨habove, hdir'⟩ := h.above hnames
    exact ih habove hdir'

end FileSystem

namespace FileTree

variable {root t : FileTree} {trail : List (String × FileTree)} {path : String} {names : List String}

theorem canonical_leads (h : root.system.canonical path = .ok names) :
    root.isDir = true ∧ ∃ trail t, Leads root trail t ∧ names = namesOn trail := by
  rw [canonical_system] at h
  cases hr : root.resolve path with
  | error e =>
    rw [hr] at h
    cases h
  | ok found =>
    rw [hr] at h
    cases h
    obtain ⟨hdir, trail, ht, hnames⟩ := resolve_leads hr
    exact ⟨hdir, trail, _, ht, hnames⟩

theorem canonical_pathOf (hdir : root.isDir = true) (ht : Leads root trail t) :
    root.system.canonical (pathOf (namesOn trail)) = .ok (namesOn trail) := by
  rw [canonical_system, resolve_pathOf hdir ht]
  rfl

/-- A tree of files has no links at all. -/
theorem lawful_system (root : FileTree) : root.system.Lawful := by
  constructor
  · intro path names h
    obtain ⟨hdir, trail, t, ht, rfl⟩ := canonical_leads h
    exact canonical_pathOf hdir ht
  · intro path names name h
    obtain ⟨hdir, trail, t, ht, hnames⟩ := canonical_leads h
    cases ht with
    | start => simp at hnames
    | down ht _ hlookup =>
      rw [namesOn_cons] at hnames
      obtain ⟨rfl, -⟩ := List.append_inj' hnames rfl
      refine ⟨canonical_pathOf hdir ht, ?_⟩
      rw [isDir_system, ht.get?, Option.any_some, isDir_of_lookup hlookup]

end FileTree

namespace Project

variable {files files' : FileSystem} {path : String} {project : Project} {names root below : List String}

/-- The search for a repository goes up name by name. -/
theorem repositoryAbove_concat (files : FileSystem) (names : List String) (name : String) :
    repositoryAbove files (names ++ [name]) =
      if files.holds (names ++ [name] ++ [".git"]) then some (names ++ [name]) else repositoryAbove files names := by
  have hdepths : (List.range (names.length + 1)).reverse.map (names ++ [name]).take =
      (List.range (names.length + 1)).reverse.map names.take := by
    refine List.map_congr_left fun depth hdepth => List.take_append_of_le_length ?_
    rw [List.mem_reverse, List.mem_range] at hdepth
    omega
  rw [repositoryAbove, List.length_append, List.length_singleton, List.range_succ, List.reverse_append,
    List.reverse_singleton, List.singleton_append, List.map_cons, hdepths,
    List.take_of_length_le (by simp), List.find?_cons]
  cases files.holds (names ++ [name] ++ [".git"]) <;> rfl

/-- A repository that is found holds an entry for git, at the directory or above it. -/
theorem repositoryAbove_spec (h : repositoryAbove files names = some root) :
    root <+: names ∧ files.holds (root ++ [".git"]) = true := by
  obtain ⟨depth, -, hdepth⟩ := List.mem_map.1 (List.mem_of_find?_eq_some h)
  have hholds := List.find?_some h
  exact ⟨hdepth ▸ List.take_prefix depth names, hholds⟩

theorem repositoryAbove_self (h : files.holds (root ++ [".git"]) = true) : repositoryAbove files root = some root := by
  cases root using List.reverseRecOn with
  | nil => simpa [repositoryAbove] using h
  | append_singleton above name => rw [repositoryAbove_concat, if_pos h]

/-- No directory on the way down from a root holds an entry for git. -/
def NoneBetween (files : FileSystem) (root below : List String) : Prop :=
  ∀ part, part <+: below → part ≠ [] → files.holds (root ++ part ++ [".git"]) = false

theorem repositoryAbove_below (h : NoneBetween files root below) :
    repositoryAbove files (root ++ below) = repositoryAbove files root := by
  induction below using List.reverseRecOn with
  | nil => rw [List.append_nil]
  | append_singleton below name ih =>
    have hnone := h (below ++ [name]) List.prefix_rfl (by simp)
    rw [← List.append_assoc] at hnone
    rw [← List.append_assoc, repositoryAbove_concat, if_neg (by rw [hnone]; decide)]
    exact ih fun part hpart => h part (hpart.trans (List.prefix_append below [name]))

theorem repositoryAbove_congr
    (h : ∀ above, above <+: names → files'.holds (above ++ [".git"]) = files.holds (above ++ [".git"])) :
    repositoryAbove files' names = repositoryAbove files names := by
  induction names using List.reverseRecOn with
  | nil =>
    have hroot : files'.holds [".git"] = files.holds [".git"] := h [] List.prefix_rfl
    simp [repositoryAbove, hroot]
  | append_singleton names name ih =>
    rw [repositoryAbove_concat, repositoryAbove_concat, h _ List.prefix_rfl,
      ih fun above habove => h above (habove.trans (List.prefix_append names [name]))]

theorem ofDir_of_repository (h : repositoryAbove files names = some root) :
    ofDir files names = ofRoot root (some (gitInfo files (pathOf root))) := by
  rw [ofDir, h]

theorem identifyIn_eq_ok_iff : identifyIn files path = .ok project ↔
    ∃ names, files.canonical path = .ok names ∧ files.isDir names = true ∧ ofDir files names = project := by
  unfold identifyIn
  cases files.canonical path with
  | error text => simp
  | ok names => cases hdir : files.isDir names <;> simp [hdir]

/-- What is read of git for a directory is as it was, and so is the place of the directory. -/
structure GitKept (files files' : FileSystem) (root : List String) : Prop where
  place : files'.canonical (pathOf root) = files.canonical (pathOf root)
  dir : files'.isDir root = files.isDir root
  entries : ∀ above, above <+: root → files'.holds (above ++ [".git"]) = files.holds (above ++ [".git"])
  isFile : files'.isFile (Path.join (pathOf root) ".git") = files.isFile (Path.join (pathOf root) ".git")
  pointer : files'.text? (Path.join (pathOf root) ".git") = files.text? (Path.join (pathOf root) ".git")
  texts : ∀ name ∈ ["config", "HEAD"],
    files'.text? (Path.join (gitDir files (pathOf root)) name) = files.text? (Path.join (gitDir files (pathOf root)) name)

theorem GitKept.gitInfo_eq (h : GitKept files files' root) :
    gitInfo files' (pathOf root) = gitInfo files (pathOf root) := by
  have hdir : gitDir files' (pathOf root) = gitDir files (pathOf root) := by
    rw [gitDir, gitDir, h.isFile, h.pointer]
  rw [gitInfo, gitInfo, hdir, h.texts "config" (by simp), h.texts "HEAD" (by simp)]

/-- A project that was identified is identified again by its root, and, if it is a repository, by every directory below
its root that is in no nearer one. -/
theorem identifyIn_stable (hfiles : files.Lawful) (h : identifyIn files path = .ok project) :
    ∃ root, project.root = pathOf root ∧ files.canonical project.root = .ok root ∧
      ∀ files', GitKept files files' root →
        identifyIn files' project.root = .ok project ∧
          (project.git.isSome = true → ∀ path' below, files'.canonical path' = .ok (root ++ below) →
            files'.isDir (root ++ below) = true → NoneBetween files' root below →
              identifyIn files' path' = .ok project) := by
  obtain ⟨names, hnames, hdir, rfl⟩ := identifyIn_eq_ok_iff.1 h
  cases hfound : repositoryAbove files names with
  | none =>
    have hproject : ofDir files names = ofRoot names none := by rw [ofDir, hfound]
    rw [hproject]
    have hcanonical := hfiles.settled hnames
    refine ⟨names, rfl, hcanonical, fun files' hkept => ⟨identifyIn_eq_ok_iff.2 ⟨names, ?_, ?_, ?_⟩, nofun⟩⟩
    · exact hkept.place.trans hcanonical
    · exact hkept.dir.trans hdir
    · rw [ofDir, repositoryAbove_congr hkept.entries, hfound]
  | some root =>
    obtain ⟨habove, hholds⟩ := repositoryAbove_spec hfound
    obtain ⟨hcanonical, hrootDir⟩ := hfiles.upward hnames hdir habove
    rw [ofDir_of_repository hfound]
    refine ⟨root, rfl, hcanonical, fun files' hkept => ?_⟩
    have hroot : repositoryAbove files' root = some root :=
      repositoryAbove_self ((hkept.entries root List.prefix_rfl).trans hholds)
    have hbelow : ∀ path' below, files'.canonical path' = .ok (root ++ below) → files'.isDir (root ++ below) = true →
        NoneBetween files' root below →
          identifyIn files' path' = .ok (ofRoot root (some (gitInfo files (pathOf root)))) := by
      intro path' below hpath' hdir' hnone
      refine identifyIn_eq_ok_iff.2 ⟨root ++ below, hpath', hdir', ?_⟩
      rw [ofDir_of_repository ((repositoryAbove_below hnone).trans hroot), hkept.gitInfo_eq]
    -- the root itself is the directory that is nothing below it
    refine ⟨hbelow _ [] ?_ ?_ ?_, fun _ => hbelow⟩
    · rw [List.append_nil]
      exact hkept.place.trans hcanonical
    · rw [List.append_nil]
      exact hkept.dir.trans hrootDir
    · exact fun part hpart hne => absurd (List.prefix_nil.1 hpart) hne

/-- A working tree whose data is kept beside it, with some directories for sources. -/
def linkedTree (sources : List (String × FileTree)) : FileTree := .dir
  [("data", .dir [("HEAD", .file "ref: refs/heads/dev\n".toUTF8),
    ("config", .file "[remote \"origin\"]\n\turl = u.git\n".toUTF8)]),
    ("w", .dir [(".git", .file "gitdir: ../data\n".toUTF8), ("src", .dir sources)])]

/-- A directory that is made later belongs to the same project. -/
theorem identifyIn_stable_linked :
    let later := linkedTree [("deep", .dir [])]
    let project := ofRoot ["w"] (some ⟨some "u.git", some "dev"⟩)
    identify (linkedTree []) "/w/src" = .ok project ∧ identify later "/w" = .ok project ∧
      identify later "/w/src/deep" = .ok project := by
  intro later project
  have hinfo : gitInfo (linkedTree []).system "/w" = ⟨some "u.git", some "dev"⟩ := by decide +kernel
  have hfirst : identifyIn (linkedTree []).system "/w/src" = .ok project := by
    have hfound : repositoryAbove (linkedTree []).system ["w", "src"] = some ["w"] := by decide +kernel
    refine identifyIn_eq_ok_iff.2 ⟨["w", "src"], rfl, rfl, ?_⟩
    rw [ofDir_of_repository hfound, show pathOf ["w"] = "/w" from rfl, hinfo]
  obtain ⟨root, -, hcanonical, hstable⟩ := identifyIn_stable (lawful_system _) hfirst
  have hw : (linkedTree []).system.canonical "/w" = .ok ["w"] := rfl
  obtain rfl : ["w"] = root := Except.ok.inj (hw.symm.trans hcanonical)
  have hentries : ∀ above ∈ ["w"].inits,
      later.system.holds (above ++ [".git"]) = (linkedTree []).system.holds (above ++ [".git"]) := by decide +kernel
  have hkept : GitKept (linkedTree []).system later.system ["w"] := by
    refine ⟨rfl, rfl, fun above h => hentries above ((List.mem_inits _ _).2 h), rfl, ?_, ?_⟩ <;> decide +kernel
  have hnone : ∀ part ∈ ["src", "deep"].inits, part ≠ [] →
      later.system.holds (["w"] ++ part ++ [".git"]) = false := by decide +kernel
  obtain ⟨hroot, hbelow⟩ := hstable later.system hkept
  exact ⟨hfirst, hroot, hbelow rfl "/w/src/deep" ["src", "deep"] rfl rfl fun part h =>
    hnone part ((List.mem_inits _ _).2 h)⟩

end Project

end CodeIndex
