/-!
Trees of files. A directory has its entries in whatever order it lists them. Paths are read from the root of the tree:
empty pieces and dots stay where they are, and two dots go up.
-/

namespace CodeIndex

/-- Why a path leads to no file or directory, or to one that cannot be read. -/
inductive PathError where
  | notFound
  | notDirectory
  | isDirectory
  | occupied
  | denied
  | failed (text : String)
  deriving DecidableEq, Repr

def PathError.message : PathError → String
  | notFound => "No such file or directory (os error 2)"
  | notDirectory => "Not a directory (os error 20)"
  | isDirectory => "Is a directory (os error 21)"
  | occupied => "File exists (os error 17)"
  | denied => "Permission denied (os error 13)"
  | failed text => text

/-- What there is to know of a file besides its content. -/
structure FileStat where
  /-- Milliseconds since the epoch. -/
  modifiedMs : Int := 0
  /-- Why its content cannot be read, if it cannot. -/
  fault : Option PathError := none
  deriving DecidableEq, Repr

inductive FileTree where
  | file (content : ByteArray) (stat : FileStat := {})
  | dir (entries : List (String × FileTree))

namespace FileTree

def empty : FileTree := dir []

def isDir : FileTree → Bool
  | dir _ => true
  | file .. => false

def entries : FileTree → List (String × FileTree)
  | dir es => es
  | file .. => []

/-- The content of a file that can be read. -/
def content : FileTree → Except PathError ByteArray
  | dir _ => .error .isDirectory
  | file bytes stat =>
    match stat.fault with
    | some e => .error e
    | none => .ok bytes

def lookup (name : String) (es : List (String × FileTree)) : Option FileTree := (es.find? (·.1 == name)).map (·.2)

/-- Gives a name its tree. A new name is listed first. -/
def insert (name : String) (t : FileTree) (es : List (String × FileTree)) : List (String × FileTree) :=
  if es.any (·.1 == name) then es.map fun e => if e.1 == name then (name, t) else e else (name, t) :: es

/-- The tree with `new` at the end of some names. Directories on the way are made, but no file becomes one. -/
def put (new : FileTree) : List String → FileTree → FileTree
  | [], _ => new
  | _ :: _, file c stat => file c stat
  | n :: ns, dir es => dir (insert n (put new ns ((lookup n es).getD empty)) es)

/-- The tree with a directory at the end of some names, and at each of them; a file in the way is an error. -/
def makeDir? (t : FileTree) : List String → Except PathError FileTree
  | [] => match t with
    | dir _ => .ok t
    | file .. => .error .occupied
  | n :: ns => match t with
    | file .. => .error .notDirectory
    | dir es => (makeDir? ((lookup n es).getD empty) ns).map fun below => dir (insert n below es)

/-- The tree without what stands at the end of some names. -/
def remove : List String → FileTree → FileTree
  | [], t => t
  | _, file c stat => file c stat
  | [n], dir es => dir (es.filter (·.1 != n))
  | n :: ns, dir es => dir (es.map fun e => if e.1 == n then (n, remove ns e.2) else e)

/-- The names that a path goes down, with those that it goes up again left out. -/
def namesOf (path : String) : List String :=
  ((path.toList.splitOn '/').foldl (fun (names : List String) piece =>
    if piece = [] ∨ piece = ['.'] then names
    else if piece = ['.', '.'] then names.drop 1
    else .ofList piece :: names) []).reverse

/-- Follows pieces of a path. `trail` holds the names gone down and what is found there, the last one in front. -/
def follow (root : FileTree) (trail : List (String × FileTree)) :
    List (List Char) → Except PathError (List (String × FileTree))
  | [] => .ok trail
  | piece :: rest =>
    match (trail.head?.map (·.2)).getD root with
    | file .. => .error .notDirectory
    | dir es =>
      if piece = [] ∨ piece = ['.'] then follow root trail rest
      else if piece = ['.', '.'] then follow root (trail.drop 1) rest
      else match lookup (.ofList piece) es with
        | none => .error .notFound
        | some t => follow root ((.ofList piece, t) :: trail) rest

/-- Where an absolute path leads: the names from the root, and what is there. -/
def resolve (root : FileTree) (path : String) : Except PathError (List String × FileTree) :=
  (follow root [] (path.toList.splitOn '/')).map fun trail =>
    ((trail.map (·.1)).reverse, (trail.head?.map (·.2)).getD root)

/-- The content of the file at a path. -/
def read (root : FileTree) (path : String) : Except PathError ByteArray :=
  match root.resolve path with
  | .ok (_, t) => t.content
  | .error e => .error e

/-- What names lead to. -/
def get? : List String → FileTree → Option FileTree
  | [], t => some t
  | n :: ns, t => (lookup n t.entries).bind (get? ns)

mutual

/-- All files of a tree that names lead to, each with its names. -/
def files (names : List String) : FileTree → List (List String × ByteArray × FileStat)
  | file content stat => [(names, content, stat)]
  | dir es => filesOf names es

def filesOf (names : List String) : List (String × FileTree) → List (List String × ByteArray × FileStat)
  | [] => []
  | (n, t) :: rest => files (names ++ [n]) t ++ filesOf names rest

end

/-- The names of all files that are in one of two trees only, or not the same in both. -/
def changes (old new : FileTree) : List (List String) :=
  let fileIn (t : FileTree) (names : List String) : Option (ByteArray × FileStat) :=
    match t.get? names with
    | some (file content stat) => some (content, stat)
    | _ => none
  let gone := (old.files []).filter fun f => fileIn new f.1 != some f.2
  let come := (new.files []).filter fun f => (fileIn old f.1).isNone
  (gone ++ come).map (·.1)

/-- An absolute path of names. -/
def pathOf (names : List String) : String := "/" ++ "/".intercalate names

end FileTree

end CodeIndex
