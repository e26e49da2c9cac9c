import CodeIndex.Config.Settings
import CodeIndex.Proofs.Indexing.Intake
import Mathlib.Logic.Relation

/-!
Any order of operations on an index, over a tree that may be another one each time. Each operation is made of a few
changes, so what these changes preserve holds after all operations.
-/

namespace CodeIndex

open CodeIndex.Embedding Files Lexical Relation

/-- What can be done to an index, with the tree as it is then. -/
inductive Operation where
  | index (tree : FileTree) (path : String) (force : Bool)
  | reindex (tree : FileTree) (project : Project) (file : String) (force : Bool)
  | remove (project : Project) (file : String)
  | wait (ms : Nat)

namespace Indexer

def apply (c : IndexerConfig) (x : Indexer) : Operation → Indexer
  | .index tree path force => (x.indexProject c tree path force).1
  | .reindex tree project file force => (x.reindexFile c tree project file force).1
  | .remove project file => (x.removeFile project file).1
  | .wait ms => { x with world := { x.world with now := x.world.now + ms } }

def run (c : IndexerConfig) (x : Indexer) (ops : List Operation) : Indexer := ops.foldl (apply c) x

/-- The model has changed, so what a project has in the store is cleared. -/
def clear (x : Indexer) (project : String) : Indexer :=
  { x with world := { x.world with store := (x.world.store.clear project).1 } }

/-- Forgets paths of a project one after the other. -/
def forgetAll (x : Indexer) (project : String) (rels : List String) : Indexer :=
  rels.foldl (fun x rel => (x.forget project rel).1) x

theorem world_forgetAll (x : Indexer) (project : String) (rels : List String) :
    (x.forgetAll project rels).world =
      { x.world with store := rels.foldl (fun s rel => s.deleteFile (fileId project rel)) x.world.store } := by
  unfold forgetAll
  induction rels generalizing x with
  | nil => rfl
  | cons rel rels ih => exact ih _

end Indexer

/-- Files to be read whose names and contents are in the scope. They have different paths, which are in normal form and
tell the languages of the files. -/
structure Scope.Takes (S : Scope) (project : String) (files : List Discovered) : Prop where
  nodup : (files.map (·.rel)).Nodup
  key : ∀ f ∈ files, (project, f.rel) ∈ S.keys
  content : ∀ f ∈ files, f.content ∈ S.contents
  normal : ∀ f ∈ files, normalizePath f.rel = f.rel
  language : ∀ f ∈ files, ∀ language, f.language = .ok language → Language.Suits f.rel language

/-- A tree with the files of a project in the scope. Different files have different paths below the root, in normal form,
that tell the same languages as their names. -/
structure Scope.Covers (S : Scope) (c : IndexerConfig) (tree : FileTree) (project : Project) : Prop where
  nodup : ∀ files, c.discover tree project.root = .ok files → (files.map (·.rel)).Nodup
  sound : ∀ files, c.discover tree project.root = .ok files → ∀ f ∈ files, f.Sound
  files : ∀ files, c.discover tree project.root = .ok files →
    ∀ f ∈ files, (project.id, f.rel) ∈ S.keys ∧ f.content ∈ S.contents

/-- Operations on names and contents of the scope. -/
def Operation.Within (S : Scope) (c : IndexerConfig) : Operation → Prop
  | .index tree path _ => ∀ project, c.identifyProject tree path = .ok project → S.Covers c tree project
  | .reindex tree project file _ =>
    S.Covers c tree project ∧ (∀ other, c.identifyProject tree project.root = .ok other → S.Covers c tree other) ∧
      ∀ rel, Indexer.relativePath project.root file = .ok rel → (project.id, rel) ∈ S.keys ∧ normalizePath rel = rel ∧
        ∀ names content stat, tree.resolve file = .ok (names, .file content stat) →
          S.Takes project.id [⟨file, rel, content, stat⟩]
  | .remove project file => ∀ rel, Indexer.relativePath project.root file = .ok rel → (project.id, rel) ∈ S.keys
  | .wait _ => True

namespace Indexer

variable {c : IndexerConfig} {S : Scope} {x x' : Indexer} {project : String}

/-- The changes that operations are made of. -/
inductive Change (c : IndexerConfig) (S : Scope) : Indexer → Indexer → Prop where
  | wait (x : Indexer) (ms : Nat) : Change c S x { x with world := { x.world with now := x.world.now + ms } }
  | clear (x : Indexer) (project : String) : x.world.needsMigration project = true → Change c S x (x.clear project)
  | intake (x : Indexer) (project : String) (force : Bool) (s : Session) (files : List Discovered) :
      S.Takes project files → s.status.isTerminal = false → Change c S x (x.intake c project force s files).1
  | forget (x : Indexer) (project : String) (rels : List String) :
      (∀ rel ∈ rels, (project, rel) ∈ S.keys ∨ rel ∈ x.paths project) → Change c S x (x.forgetAll project rels)

theorem sublist_map_filterMap {α β γ : Type} {g : α → Option β} {i : β → γ} {j : α → γ} {xs : List α}
    (h : ∀ x y, g x = some y → i y = j x) : ((xs.filterMap g).map i).Sublist (xs.map j) := by
  induction xs with
  | nil => exact .slnil
  | cons x xs ih =>
    rw [List.map_cons]
    cases hx : g x with
    | none =>
      rw [List.filterMap_cons_none hx]
      exact ih.cons _
    | some y =>
      rw [List.filterMap_cons_some hx, List.map_cons, h x y hx]
      exact ih.cons_cons _

/-- What is embedded of files in the scope is admitted, and none of it twice. -/
theorem logged_pending {files : List Discovered} {force : Bool} (hf : S.Takes project files) :
    S.Logged c project (files.filterMap (x.pending? c project force)) := by
  have hall : ∀ p ∈ files.filterMap (x.pending? c project force),
      S.Admits c p ∧ p.file.project = project := by
    intro p hp
    obtain ⟨f, hm, hp⟩ := List.mem_filterMap.1 hp
    obtain ⟨language, hl, rfl⟩ := pending?_spec hp
    exact ⟨⟨hf.key f hm, hf.normal f hm, f, language, rfl, hf.content f hm, hf.language f hm language hl⟩, rfl⟩
  refine ⟨fun p hp => (hall p hp).1, fun p hp => (hall p hp).2, List.Nodup.sublist (sublist_map_filterMap (j := fun f =>
    fileId project f.rel) fun f p hp => ?_) ?_⟩
  · obtain ⟨language, -, rfl⟩ := pending?_spec hp
    rfl
  · refine List.Nodup.map_on (fun f hf' g hg he => ?_) hf.nodup.of_map
    have hkey := S.fileId_inj (hf.key f hf') (hf.key g hg) he
    exact List.inj_on_of_nodup_map hf.nodup hf' hg (Prod.mk.inj hkey).2

/-- Files that are discovered have paths of their own, in normal form, that tell their languages. -/
theorem discover_sound {tree : FileTree} {dir : String} {files : List Discovered} (hd : c.discover tree dir = .ok files)
    (hp : tree.Proper) : (files.map (·.rel)).Nodup ∧ ∀ f ∈ files, f.Sound := by
  unfold IndexerConfig.discover at hd
  cases hr : c.rules dir with
  | error e =>
    rw [hr] at hd
    cases hd
  | ok rules =>
    rw [hr] at hd
    dsimp only [bind, Except.bind] at hd
    split at hd
    · rename_i found hf
      cases hd
      exact discover?_sound hf hp
    · cases hd

/-- A file that can be read has the language that its path tells. -/
theorem ofPath?_of_language {f : Discovered} {language : Language} (h : f.language = .ok language) :
    Language.ofPath? f.path = some language := by
  unfold Discovered.language at h
  split at h
  · cases h
  · rename_i l hl
    split at h
    · cases h
    · exact (Except.ok.inj h) ▸ hl

theorem takes_of_covers {tree : FileTree} {project : Project} {files : List Discovered} (h : S.Covers c tree project)
    (hd : c.discover tree project.root = .ok files) : S.Takes project.id files := by
  have hall := h.files files hd
  have hsound := h.sound files hd
  exact ⟨h.nodup files hd, fun f hm => (hall f hm).1, fun f hm => (hall f hm).2, fun f hm => (hsound f hm).normal,
    fun f hm language hl _ => (hsound f hm).language ▸ ofPath?_of_language hl⟩

/-- Where no name holds a backslash, only the names and contents have to be in the scope. -/
theorem covers_of_proper {tree : FileTree} {project : Project} (hp : tree.Proper)
    (h : ∀ files, c.discover tree project.root = .ok files →
      ∀ f ∈ files, (project.id, f.rel) ∈ S.keys ∧ f.content ∈ S.contents) : S.Covers c tree project where
  nodup _ hd := (discover_sound hd hp).1
  sound _ hd := (discover_sound hd hp).2
  files := h

/-- The same holds of a file that is indexed on its own. -/
theorem takes_of_relativePath {root file rel : String} {content : ByteArray} {stat : FileStat}
    (hrel : relativePath root file = .ok rel) (hroot : Path.hasRoot root = true) (hb : '\\' ∉ file.toList)
    (hkey : (project, rel) ∈ S.keys) (hcontent : content ∈ S.contents) :
    S.Takes project [⟨file, rel, content, stat⟩] := by
  obtain ⟨hlanguage, hnormal⟩ := relativePath_spec hrel hb
  refine ⟨List.nodup_singleton _, ?_, ?_, ?_, ?_⟩ <;> intro f hf <;> rw [List.mem_singleton.1 hf]
  · exact hkey
  · exact hcontent
  · exact hnormal hroot
  · intro language hl
    have hpath := ofPath?_of_language hl
    exact hlanguage language hpath

theorem removeOrphans_eq (x : Indexer) (project : String) (live : List String) :
    (x.removeOrphans project live).1 = x.forgetAll project ((x.paths project).filter (!live.contains ·)) := by
  unfold removeOrphans forgetAll
  exact (List.foldl_hom Prod.fst fun _ _ => rfl).symm

/-- The session of a full run as it begins to read files. -/
def opened (x : Indexer) (project : String) (files : List Discovered) : Session :=
  { project, status := .processing, filesFound := files.length, migrated := x.world.needsMigration project }

/-- An indexer with a project cleared if the model has changed. -/
def migrated (x : Indexer) (project : String) : Indexer :=
  if x.world.needsMigration project then x.clear project else x

theorem migrated_of_unchanged (h : x.world.needsMigration project = false) : x.migrated project = x := by
  unfold migrated
  rw [if_neg (by rw [h]; exact Bool.false_ne_true)]

/-- A full run clears the project if the model has changed, takes in all files, and forgets the others. -/
theorem indexRoot_eq {tree : FileTree} {project : Project} {files : List Discovered} (x : Indexer) (force : Bool)
    (h : c.discover tree project.root = .ok files) :
    x.indexRoot c tree project force =
      let y := (x.migrated project.id).intake c project.id force (x.opened project.id files) files
      let z := y.1.removeOrphans project.id (files.map (·.rel))
      (z.1, .ok { y.2 with filesRemoved := z.2 }.complete) := by
  unfold indexRoot
  rw [h]
  dsimp only
  unfold World.ensureModel migrated opened
  cases x.world.needsMigration project.id <;> rfl

/-- The session of a single file as it begins to be read. -/
def reading (project : String) : Session := { project, status := .processing, filesFound := 1 }

/-- A file that is there is taken in, if the rules accept it and it is not too large. -/
theorem reindexContent_eq {project : Project} {file : Discovered} {rules : Ignore.Rules} (x : Indexer) (force : Bool)
    (hrules : c.rules project.root = .ok rules) (haccepts : rules.accepts file.path = true)
    (hsize : file.content.size ≤ c.maxFileBytes) :
    x.reindexContent c project file force ({ project := project.id : Session }.transition .scanning) =
      let y := x.intake c project.id force (reading project.id) [file]
      (y.1, .ok y.2.complete) := by
  unfold reindexContent
  rw [hrules]
  dsimp only
  rw [if_neg (by simp [haccepts, hsize])]
  rfl

/-- A file that is there leaves the index as it is, or is taken in. -/
theorem reindexContent_cases (x : Indexer) (project : Project) (file : Discovered) (force : Bool) :
    let s := { project := project.id : Session }.transition .scanning
    (x.reindexContent c project file force s).1 = x ∨
      (x.reindexContent c project file force s).1 = (x.intake c project.id force (reading project.id) [file]).1 := by
  dsimp only
  cases hrules : c.rules project.root with
  | error e =>
    unfold reindexContent
    rw [hrules]
    exact .inl rfl
  | ok rules =>
    by_cases htakes : rules.accepts file.path = true ∧ file.content.size ≤ c.maxFileBytes
    · rw [reindexContent_eq x force hrules htakes.1 htakes.2]
      exact .inr rfl
    · unfold reindexContent
      rw [hrules]
      dsimp only
      rw [if_pos (by simpa [Nat.not_le, imp_iff_not_or] using htakes)]
      exact .inl rfl

theorem indexProject_changes {tree : FileTree} {path : String} (force : Bool)
    (h : ∀ project, c.identifyProject tree path = .ok project → S.Covers c tree project) :
    ReflTransGen (Change c S) x (x.indexProject c tree path force).1 := by
  unfold indexProject
  split
  · exact .refl
  · rename_i project hp
    cases hd : c.discover tree project.root with
    | error e =>
      unfold indexRoot
      rw [hd]
    | ok files =>
      rw [indexRoot_eq x force hd]
      dsimp only
      rw [removeOrphans_eq]
      have hmigrated : ReflTransGen (Change c S) x (x.migrated project.id) := by
        unfold migrated
        split
        · rename_i hm
          exact .single (.clear x project.id hm)
        · exact .refl
      have hintake := hmigrated.tail (.intake (x.migrated project.id) project.id force (x.opened project.id files) files
        (takes_of_covers (h project hp) hd) rfl)
      exact hintake.tail (.forget _ _ _ fun rel hr => .inr (List.mem_of_mem_filter hr))

/-- Each operation is made of changes. -/
theorem apply_changes {op : Operation} (h : op.Within S c) : ReflTransGen (Change c S) x (x.apply c op) := by
  cases op with
  | index tree path force => exact indexProject_changes force h
  | reindex tree project file force =>
    obtain ⟨-, hother, hfile⟩ := h
    change ReflTransGen _ x (x.reindexFile c tree project file force).1
    unfold reindexFile
    split
    · exact indexProject_changes force hother
    · dsimp only
      split
      · exact .refl
      · rename_i rel hrel
        obtain ⟨hkey, -, htakes⟩ := hfile rel hrel
        split
        · rename_i names content stat hres
          rcases reindexContent_cases (c := c) x project ⟨file, rel, content, stat⟩ force with hx | hx
          · rw [hx]
          · rw [hx]
            exact .single (.intake x project.id force (reading project.id) _ (htakes names content stat hres) rfl)
        · exact .refl
        · exact .single (.forget x project.id [rel] fun r hr => .inl (List.mem_singleton.1 hr ▸ hkey))
        · exact .refl
  | remove project file =>
    change ReflTransGen _ x (x.removeFile project file).1
    unfold removeFile
    split
    · exact .refl
    · rename_i rel hrel
      exact .single (.forget x project.id [rel] fun r hr => .inl (List.mem_singleton.1 hr ▸ h rel hrel))
  | wait ms => exact .single (.wait x ms)

/-- What every change preserves holds after an operation. -/
theorem apply_preserves {P : Indexer → Prop} (hP : ∀ x x', Change c S x x' → P x → P x') {op : Operation}
    (h : op.Within S c) (hx : P x) : P (x.apply c op) := by
  have hc := apply_changes (x := x) h
  generalize x.apply c op = x' at hc
  induction hc with
  | refl => exact hx
  | tail _ hstep ih => exact hP _ _ hstep ih

theorem run_preserves {P : Indexer → Prop} (hP : ∀ x x', Change c S x x' → P x → P x') {ops : List Operation}
    (h : ∀ op ∈ ops, op.Within S c) (hx : P x) : P (x.run c ops) := by
  induction ops generalizing x with
  | nil => exact hx
  | cons op ops ih =>
    exact ih (fun o ho => h o (List.mem_cons_of_mem op ho)) (apply_preserves hP (h op List.mem_cons_self) hx)

end Indexer

instance : DecidableEq Discovered := fun f g =>
  decidable_of_iff (f.path = g.path ∧ f.rel = g.rel ∧ f.content.data = g.content.data ∧ f.stat = g.stat) (by
    obtain ⟨path, rel, content, stat⟩ := f
    obtain ⟨path', rel', content', stat'⟩ := g
    simp [ByteArray.ext_iff])

/-- A tree of one file. -/
def oneFile : FileTree := .dir [("a.md", .file "a".toUTF8)]

def oneProject : Project := .ofRoot [] none

def oneDiscovered : Discovered := ⟨"/a.md", "a.md", "a".toUTF8, {}⟩

/-- A configuration without parsers. -/
def plainConfig : IndexerConfig := { pipeline := Config.defaultEmbedding, parser := fun _ _ => none }

/-- An indexer that knows nothing yet. -/
def freshIndexer (store : Store) (providers : List Provider) : Indexer :=
  { world := { providers, health := { config := ⟨3, 3600000, 3, 60000, 8⟩ }, store } }

/-- A provider whose first call fails for good. -/
def failingOnce : Provider :=
  { name := "m1", model := "mock-embed", dimensions := 4, script := [.fails (.permanent "m1" "down")]
    settled := .hashed 4 }

theorem identify_root {es : List (String × FileTree)}
    (h : Project.repositoryAbove (FileTree.dir es).system [] = none) :
    plainConfig.identifyProject (.dir es) "/" = .ok oneProject := by
  have hres : (FileTree.dir es).system.canonical "/" = .ok [] := rfl
  have hdir : (FileTree.dir es).system.isDir [] = true := rfl
  unfold IndexerConfig.identifyProject
  rw [show plainConfig.identify = Project.identify from rfl, Project.identify, Project.identifyIn, hres]
  dsimp only
  rw [if_pos hdir, Project.ofDir, h]
  rfl

theorem identify_oneFile : plainConfig.identifyProject oneFile "/" = .ok oneProject :=
  identify_root (by decide +kernel)

theorem discover_oneFile : plainConfig.discover oneFile oneProject.root = .ok [oneDiscovered] := by decide +kernel

/-- The scope of one file, which has one chunk. -/
def oneScope : Scope where
  keys := {(oneProject.id, "a.md")}
  contents := {"a".toUTF8}
  size := 1
  small := by
    rintro _ rfl
    decide
  fileIds := Set.injOn_singleton _ _
  chunkIds := by
    rintro ⟨_, i⟩ ⟨rfl, hi⟩ ⟨_, j⟩ ⟨rfl, hj⟩ _
    obtain rfl : i = 0 := Nat.lt_one_iff.1 hi
    obtain rfl : j = 0 := Nat.lt_one_iff.1 hj
    rfl

theorem proper_oneFile : oneFile.Proper := by
  rw [oneFile, FileTree.Proper]
  exact ⟨List.nodup_singleton _, ⟨by decide, by decide, by decide⟩, trivial, trivial⟩

theorem index_oneFile_within (force : Bool) : (Operation.index oneFile "/" force).Within oneScope plainConfig := by
  intro project hp
  rw [identify_oneFile] at hp
  cases hp
  refine Indexer.covers_of_proper proper_oneFile fun files hd f hf => ?_
  rw [discover_oneFile] at hd
  cases hd
  rw [List.mem_singleton.1 hf]
  exact ⟨rfl, rfl⟩

end CodeIndex
