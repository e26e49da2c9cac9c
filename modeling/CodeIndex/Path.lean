import CodeIndex.Text.Blank

/-!
Slash-separated paths. A path is read as its components: repeated slashes and inner dots vanish, a leading
slash is a component of its own, and so is a dot at the very start of a relative path.
-/

namespace CodeIndex

inductive Component where
  | root
  | current
  | parent
  | normal (name : String)
  deriving DecidableEq, Repr

namespace Path

def ofPiece? (first : Bool) (piece : List Char) : Option Component :=
  if piece = [] then none
  else if piece = ['.'] then if first then some .current else none
  else if piece = ['.', '.'] then some .parent
  else some (.normal (.ofList piece))

/-- The components of a path, the outermost first. -/
def components (path : String) : List Component :=
  match path.toList.splitOn '/' with
  | [] => []
  | head :: rest =>
    let inner := rest.filterMap (ofPiece? false)
    if head = [] ∧ rest ≠ [] then .root :: inner else (ofPiece? true head).toList ++ inner

def hasRoot (path : String) : Bool := path.toList.head? == some '/'

/-- The last component's name, unless the path ends in a root or in dots. -/
def fileName? (path : String) : Option String :=
  match (components path).getLast? with
  | some (.normal name) => some name
  | _ => none

/-- What follows the last dot of a name, unless that dot is the first character. -/
def extensionOf? (name : String) : Option String :=
  let after := name.toList.reverse.takeWhile (· ≠ '.')
  match name.toList.reverse.dropWhile (· ≠ '.') with
  | _ :: _ :: _ => some (.ofList after.reverse)
  | _ => none

def extension? (path : String) : Option String := (fileName? path).bind extensionOf?

/-- The components of `path` below those of `base`, if it lies there. -/
def below? (base path : List Component) : Option (List Component) :=
  if base.isPrefixOf path then some (path.drop base.length) else none

/-- `rest` under `base`; a rooted `rest` stands for itself. -/
def join (base rest : String) : String :=
  if hasRoot rest then rest
  else if base.isEmpty then rest
  else if base.toList.getLast? = some '/' then base ++ rest
  else base ++ "/" ++ rest

/-- Neither a component nor a root: an inner piece that is empty or a dot. -/
def isIdle (piece : List Char) : Bool := piece == [] || piece == ['.']

/-- The pieces of a path without idle ones at the end; the first is kept always, and so is a root. -/
def trimPieces : List (List Char) → List (List Char)
  | [] => []
  | [first] => [first]
  | first :: rest =>
    let inner := Text.stripEnd isIdle rest
    if first = [] ∧ inner = [] then [[], []] else first :: inner

def ofPieces (pieces : List (List Char)) : String := .ofList (['/'].intercalate pieces)

/-- Drops so many components off the front of inner pieces, with the idle pieces about them. -/
def dropInner (pieces : List (List Char)) : Nat → List (List Char)
  | 0 => pieces.dropWhile isIdle
  | k + 1 => dropInner ((pieces.dropWhile isIdle).drop 1) k

/-- The text of a path below a base, as far as it is written; nothing if the path does not lie there. -/
def textBelow? (base path : String) : Option String :=
  if (components base).isPrefixOf (components path) then
    let pieces := path.toList.splitOn '/'
    let inner := match (components base).length, pieces with
      | 0, pieces => pieces
      | k + 1, first :: rest =>
        if (first = [] ∧ rest ≠ []) ∨ first = ['.'] then dropInner rest k else dropInner (first :: rest) (k + 1)
      | _ + 1, [] => []
    some (ofPieces (trimPieces inner))
  else none

/-- The directories above a relative path, the nearest first and the empty path last. -/
def ancestors (path : String) : List String :=
  match path.toList.splitOn '/' with
  | [] => []
  | first :: rest => up first (Text.stripEnd isIdle rest)
where
  up (first : List Char) (rest : List (List Char)) : List String :=
    match rest with
    | [] => if first = [] then [] else [""]
    | p :: ps =>
      let inner := Text.stripEnd isIdle (p :: ps).dropLast
      ofPieces (first :: inner) :: up first inner
  termination_by rest.length
  decreasing_by exact Nat.lt_of_le_of_lt (Text.length_stripEnd_le _ _) (by simp)

end Path

end CodeIndex
