import CodeIndex.Digest.Uuid
import CodeIndex.Files.System
import CodeIndex.Path
import CodeIndex.Store.Record
import CodeIndex.Text.Case
import CodeIndex.Text.Lines

/-!
What project a directory belongs to: the nearest directory at or above it that is a git repository, or else itself.
The identifier is derived from the root, in lower case, and from the repository's remote and branch.
-/

namespace CodeIndex

structure GitInfo where
  remote : Option String
  branch : Option String
  deriving DecidableEq, Repr

structure Project where
  id : String
  name : String
  root : String
  git : Option GitInfo
  deriving DecidableEq, Repr

namespace Project

/-- The branch that a repository is on, if its head names one. -/
def parseHead (head : String) : Option String := Text.dropPrefix? "ref: refs/heads/" (Text.trim head)

/-- The value of the line `url = value`. -/
def urlOf? (line : String) : Option String :=
  let key := line.toList.takeWhile (· ≠ '=')
  match line.toList.dropWhile (· ≠ '=') with
  | _ :: value => if Text.trim (.ofList key) = "url" then some (Text.trim (.ofList value)) else none
  | [] => none

/-- The first url in a section of the remote named origin. -/
def originUrl (inOrigin : Bool) : List String → Option String
  | [] => none
  | line :: rest =>
    let line := Text.trim line
    if line.toList.head? = some '[' then originUrl (line == "[remote \"origin\"]") rest
    else if inOrigin then (urlOf? line).or (originUrl true rest)
    else originUrl false rest

def parseConfig (config : String) : Option String := originUrl false (Text.lines config)

/-- The directory of a repository's data: a file in its place may point somewhere else. -/
def gitDir (files : FileSystem) (repository : String) : String :=
  let git := Path.join repository ".git"
  if files.isFile git then
    match (files.text? git).bind (Text.dropPrefix? "gitdir:") with
    | none => git
    | some path => Path.join (repository ++ "/") (Text.trim path)
  else git

def gitInfo (files : FileSystem) (repository : String) : GitInfo :=
  let dir := gitDir files repository
  { remote := (files.text? (Path.join dir "config")).bind parseConfig
    branch := (files.text? (Path.join dir "HEAD")).bind parseHead }

/-- The spelling of a root that identifiers are derived from. -/
def normalizeRoot (path : String) : String :=
  let lower := Text.lowerChars (path.toList.map fun c => if c = '\\' then '/' else c)
  let trimmed := Text.stripEnd (· == '/') lower
  if trimmed.isEmpty then "/" else .ofList trimmed

def keyOf (path : String) (git : Option GitInfo) : String :=
  normalizeRoot path ++ match git with
    | none => ""
    | some g => "|" ++ g.remote.getD "" ++ "|" ++ g.branch.getD ""

/-- The nearest directory at the end of names, or above it, that holds an entry for git. -/
def repositoryAbove (files : FileSystem) (names : List String) : Option (List String) :=
  let depths := (List.range (names.length + 1)).reverse
  (depths.map names.take).find? fun above => files.holds (above ++ [".git"])

def ofRoot (names : List String) (git : Option GitInfo) : Project :=
  let root := FileTree.pathOf names
  ⟨Digest.Uuid.ofName idSpace ("project:" ++ keyOf root git), names.getLast?.getD root, root, git⟩

/-- The project of the directory at the end of names. -/
def ofDir (files : FileSystem) (names : List String) : Project :=
  match repositoryAbove files names with
  | some repository => ofRoot repository (some (gitInfo files (FileTree.pathOf repository)))
  | none => ofRoot names none

/-- The project that a directory belongs to. -/
def identifyIn (files : FileSystem) (path : String) : Except StoreError Project :=
  match files.canonical path with
  | .error text => .error (.io text)
  | .ok names =>
    if files.isDir names then .ok (ofDir files names)
    else .error (.other s!"{FileTree.pathOf names} is not a directory")

def identify (root : FileTree) (path : String) : Except StoreError Project := identifyIn root.system path

end Project

end CodeIndex
