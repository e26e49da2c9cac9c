import CodeIndex.Glob.Parse
import CodeIndex.Text.Blank
import CodeIndex.Text.Search

/-!
Lines of an ignore file. A line is a glob for paths relative to the file's directory; it may take back what
earlier lines ignore, and it may be for directories only.
-/

namespace CodeIndex.Ignore

structure Pattern where
  glob : List Glob.Token
  /-- The line takes back instead of ignoring. -/
  keeps : Bool
  /-- The line is for directories only. -/
  onlyDirs : Bool
  deriving Repr

/-- A line without its blanks at the end, of which an escaped one stays. -/
def trimLine (line : String) : String :=
  if (Text.dropSuffix? "\\ " line).isSome then line else Text.trimEnd line

/-- Whether a glob begins with components of any number. -/
def isFloating (glob : String) : Bool := glob == "**" || (Text.dropPrefix? "**/" glob).isSome

/-- The glob of a line without its marks. One that holds no slash floats, unless it is anchored; one for all below a
directory does not match the directory. -/
def expand (anchored : Bool) (text : String) : String :=
  let floating := if anchored || text.toList.contains '/' || isFloating text then text else "**/" ++ text
  if (Text.dropSuffix? "/**" floating).isSome then floating ++ "/*" else floating

/-- Takes the marks off the front of a line: whether it keeps, whether it is anchored, and what is left. -/
def readMarks (line : String) : Bool × Bool × String :=
  if (Text.dropPrefix? "\\!" line).isSome ∨ (Text.dropPrefix? "\\#" line).isSome then
    (false, false, .ofList (line.toList.drop 1))
  else
    let keeps := line.toList.head? == some '!'
    let rest := line.toList.drop (if keeps then 1 else 0)
    let anchored := rest.head? == some '/'
    (keeps, anchored, .ofList (rest.drop (if anchored then 1 else 0)))

/-- Takes a slash off the end of a line, and the backslash before it. -/
def readEnd (text : String) : Bool × String :=
  match Text.dropSuffix? "/" text with
  | none => (false, text)
  | some inner => (true, (Text.dropSuffix? "\\" inner).getD inner)

/-- The pattern of a line; comments and empty lines have none. -/
def Pattern.ofLine? (line : String) : Except Glob.GlobError (Option Pattern) := do
  let trimmed := trimLine line
  if line.toList.head? = some '#' ∨ trimmed.isEmpty then return none
  let (keeps, anchored, rest) := readMarks trimmed
  let (onlyDirs, text) := readEnd rest
  return some { glob := ← Glob.parse (expand anchored text), keeps, onlyDirs }

inductive Verdict where
  | ignored
  | kept
  deriving DecidableEq, Repr

def Pattern.verdict (p : Pattern) : Verdict := if p.keeps then .kept else .ignored

def Pattern.applies (p : Pattern) (isDir : Bool) (path : String) : Bool :=
  (!p.onlyDirs || isDir) && Glob.Matches p.glob path

/-- What the last pattern that applies to a path says of it. -/
def verdict? (patterns : List Pattern) (isDir : Bool) (path : String) : Option Verdict :=
  (patterns.reverse.find? (·.applies isDir path)).map Pattern.verdict

end CodeIndex.Ignore
