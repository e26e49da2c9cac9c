import CodeIndex.Ignore.Pattern
import CodeIndex.Language

/-!
Which paths take part in indexing. Directories and endings of names that never hold sources are left out, and so
is what the patterns of a project ignore. Only the path is looked at.
-/

namespace CodeIndex.Ignore

def deniedDirs : List String :=
  [".git", ".hg", ".svn", ".idea", ".vscode", ".venv", "venv", "__pycache__", ".mypy_cache", ".pytest_cache", ".tox",
    "node_modules", "bower_components", "target", "dist", "build", "out", ".next", ".nuxt", "coverage", "vendor"]

def deniedSuffixes : List String :=
  [".min.js", ".min.css", ".map", ".lock", ".log", ".pyc", ".class", ".o", ".so", ".dll", ".exe"]

structure Rules where
  root : String
  patterns : List Pattern

/-- The first line that is no pattern stops the reading. -/
def readPatterns : List String → Except String (List Pattern)
  | [] => .ok []
  | line :: rest =>
    match Pattern.ofLine? line with
    | .error _ => .error line
    | .ok p => (readPatterns rest).map (p.toList ++ ·)

namespace Rules

/-- Rules with patterns for a root; the error is the first line that is none. -/
def ofLines (root : String) (lines : List String) : Except String Rules := (readPatterns lines).map (⟨root, ·⟩)

/-- Rules with no patterns. -/
def builtin (root : String) : Rules := ⟨root, []⟩

def isDenied (rel : String) : Bool :=
  let inDeniedDir := (Path.components rel).dropLast.any fun
    | .normal name => deniedDirs.contains name
    | _ => false
  inDeniedDir || match Path.fileName? rel with
    | none => true
    | some name => deniedSuffixes.any fun s => (Text.dropSuffix? s (name.map Char.toLower)).isSome

/-- The path that patterns are matched against: the text of the root is dropped once more from its front. Nothing if
what is left begins with a slash. -/
def subject? (root rel : String) : Option String :=
  let bare (p : String) := (Text.dropPrefix? "./" p).getD p
  let path := bare rel
  let below :=
    if bare root = "." ∨ !path.toList.contains '/' then path
    else match Text.dropPrefix? (bare root) path with
      | some p => (Text.dropPrefix? "/" p).getD p
      | none => path
  if Path.hasRoot below then none else some below

/-- What the patterns say of a file, or else of the nearest directory above it of which they say anything. -/
def judge (patterns : List Pattern) (path : String) : Option Verdict :=
  (verdict? patterns false path).or ((Path.ancestors path).findSome? (verdict? patterns true))

/-- Whether a path is left out; nothing if its text below the root makes no relative path. -/
def isIgnored? (r : Rules) (path : String) : Option Bool :=
  let rel := (Path.textBelow? r.root path).getD path
  if isDenied rel then some true
  else if Path.hasRoot rel ∨ r.patterns.isEmpty then some false
  else (subject? r.root rel).map fun path => judge r.patterns path == some .ignored

def isIgnored (r : Rules) (path : String) : Bool := (r.isIgnored? path).getD false

/-- Not left out, and of a language that can be indexed. -/
def accepts (r : Rules) (path : String) : Bool := !r.isIgnored path && (Language.ofPath? path).isSome

end Rules

end CodeIndex.Ignore
