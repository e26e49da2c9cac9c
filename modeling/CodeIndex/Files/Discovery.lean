import CodeIndex.Files.Tree
import CodeIndex.Ignore.Rules
import CodeIndex.Store.Record
import CodeIndex.Text.Lines
import CodeIndex.Text.Utf8

/-!
Finding the files of a project. Names that begin with a dot are left out, and so is what ignore files name, unless
an ignore file takes it back. A directory that is left out is not entered. Of the ignore files about a path the
nearest with a line for it decides; those of git count only within a repository, and not beyond its root.
-/

namespace CodeIndex.Files

open Ignore

/-- A directory above a path, with the lines of its ignore files. -/
structure Layer where
  /-- How many names lead to the directory. -/
  depth : Nat
  ignore : List Pattern
  gitignore : List Pattern
  exclude : List Pattern
  isRepository : Bool

/-- The lines of an ignore file up to one that is not UTF-8; a mark of byte order may stand before the first. -/
def ignoreLines (content : ByteArray) : List String :=
  let pieces := content.toList.splitOn 10
  let texts := ((pieces.map fun p => Text.decodeUtf8? ⟨p.toArray⟩).takeWhile Option.isSome).reduceOption
  match texts.map fun line => Text.dropReturn line.toList with
  | [] => []
  | first :: rest => (first.dropWhile (· == '\ufeff') :: rest).map .ofList

/-- The patterns of an ignore file that can be read; lines that are none are passed over. -/
def patternsAt (t : FileTree) (names : List String) : List Pattern :=
  match (t.get? names).map FileTree.content with
  | some (.ok content) => (ignoreLines content).filterMap fun line => (Pattern.ofLine? line).toOption.join
  | _ => []

def Layer.ofDir (depth : Nat) (t : FileTree) : Layer :=
  { depth, ignore := patternsAt t [".ignore"], gitignore := patternsAt t [".gitignore"]
    exclude := patternsAt t [".git", "info", "exclude"], isRepository := (t.get? [".git"]).isSome }

/-- The layers up to the root of the repository, the nearest first; none outside any repository. -/
def repositoryLayers (layers : List Layer) : List Layer :=
  match layers.findIdx? (·.isRepository) with
  | some i => layers.take (i + 1)
  | none => []

/-- What ignore files say of a path; `layers` holds the directories above it, the nearest first. -/
def verdict? (layers : List Layer) (isDir : Bool) (names : List String) : Option Verdict :=
  let ask (patterns : Layer → List Pattern) (layers : List Layer) :=
    layers.findSome? fun l => Ignore.verdict? (patterns l) isDir ("/".intercalate (names.drop l.depth))
  let git := repositoryLayers layers
  ((ask Layer.ignore layers).or (ask Layer.gitignore git)).or (ask Layer.exclude git)

/-- Whether discovery passes over a path. -/
def isSkipped (layers : List Layer) (isDir : Bool) (names : List String) : Bool :=
  match verdict? layers isDir names with
  | some .ignored => true
  | some .kept => false
  | none => (names.getLast?.getD "").toList.head? == some '.'

structure Found where
  names : List String
  content : ByteArray
  stat : FileStat

mutual

/-- The files of a tree that names lead to. -/
def walk (layers : List Layer) (names : List String) : FileTree → List Found
  | .file content stat => [⟨names, content, stat⟩]
  | .dir es => walkEntries (.ofDir names.length (.dir es) :: layers) names es

def walkEntries (layers : List Layer) (names : List String) : List (String × FileTree) → List Found
  | [] => []
  | (name, t) :: rest =>
    (if isSkipped layers t.isDir (names ++ [name]) then [] else walk layers (names ++ [name]) t) ++
      walkEntries layers names rest

end

/-- The layers of all directories above the one that names lead to. -/
def layersAbove (root : FileTree) (names : List String) : List Layer :=
  ((List.range names.length).map fun d => Layer.ofDir d ((root.get? (names.take d)).getD .empty)).reverse

/-- A file that takes part in indexing. -/
structure Discovered where
  path : String
  /-- The path below the root of the project, as identifiers are derived from it. -/
  rel : String
  content : ByteArray
  stat : FileStat

/-- The files below a directory that the rules accept and that are not larger than a limit; nothing if there is no
such directory. -/
def discover? (root : FileTree) (dir : String) (rules : Rules) (maxBytes : Nat) : Option (List Discovered) :=
  match root.resolve dir with
  | .ok (names, .dir es) =>
    let found := (walk (layersAbove root names) names (.dir es)).filter fun f =>
      rules.accepts (FileTree.pathOf f.names) && decide (f.content.size ≤ maxBytes)
    some (found.map fun f =>
      ⟨FileTree.pathOf f.names, normalizePath ("/".intercalate (f.names.drop names.length)), f.content, f.stat⟩)
  | _ => none

end CodeIndex.Files
