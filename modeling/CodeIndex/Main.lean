import CodeIndex.Command.Run
import CodeIndex.Text.Timestamp
import CodeIndex.Watch.Watcher

/-!
The program. It reads the files that a command needs, runs the command on them, writes the database back and prints
the reply. No parser is at hand, so that all texts are cut into windows of lines, and links are not followed.
-/

namespace CodeIndex.Main

open Command

/-- What the clock shows: a process has its entry there from the time that it is looked for. -/
def clock : IO Nat := do
  try
    let t := (← ((← IO.currentDir) / "/proc/self").metadata).modified
    return (t.sec * 1000000000 + t.nsec.toNat).toNat
  catch _ => return 0

def faultOf : IO.Error → PathError
  | .permissionDenied .. => .denied
  | .noFileOrDirectory .. => .notFound
  | e => .failed (toString e)

/-- The file at a path, or all below a directory. Of the data of a repository only what is asked for is read. A file that
cannot be read is as long as it is, and nothing more is known of its content. -/
partial def readTree (path : String) : IO (Option FileTree) := do
  try
    let place := (← IO.currentDir) / path
    let known ← place.symlinkMetadata
    match known.type with
    | .file =>
      let modifiedMs := known.modified.sec * 1000 + known.modified.nsec.toNat / 1000000
      try return some (.file (← IO.FS.readBinFile place) { modifiedMs })
      catch e => return some (.file ⟨Array.replicate known.byteSize.toNat 0⟩ { modifiedMs, fault := some (faultOf e) })
    | .dir =>
      let mut tree := FileTree.empty
      for entry in ← place.readDir do
        if entry.fileName ≠ ".git" then
          if let some below ← readTree (Path.join path entry.fileName) then
            tree := FileTree.put below [entry.fileName] tree
      return some tree
    | _ => return none
  catch _ => return none

/-- Adds what is at a path to a tree, if there is anything. -/
def add (tree : FileTree) (path : String) : IO FileTree := do
  match ← readTree path with
  | some found => return FileTree.put found (FileTree.namesOf path) tree
  | none => return tree

/-- Adds what says how the files below a directory are treated, and what repository it is. -/
def addMarks (tree : FileTree) (dir : String) : IO FileTree := do
  let mut tree := tree
  let place := (← IO.currentDir) / Path.join dir ".git"
  if ← place.pathExists then
    if ← place.isDir then
      tree := FileTree.put .empty (FileTree.namesOf (Path.join dir ".git")) tree
    for name in [".git", ".git/HEAD", ".git/config", ".git/info/exclude"] do
      if name ≠ ".git" ∨ !(← place.isDir) then tree ← add tree (Path.join dir name)
    let data := Project.gitDir tree.system dir
    if data ≠ Path.join dir ".git" then
      for name in ["HEAD", "config"] do
        tree ← add tree (Path.join data name)
  for name in [".ignore", ".gitignore"] do
    tree ← add tree (Path.join dir name)
  return tree

/-- The files that matter to a command on a path: all below the project's root, and marks above it. -/
def gather (path : String) : IO FileTree := do
  let names := FileTree.namesOf path
  let mut tree := FileTree.empty
  let mut top := names.length
  for depth in (List.range (names.length + 1)).reverse do
    if top = names.length ∧ (← ((← IO.currentDir) / Path.join (FileTree.pathOf (names.take depth)) ".git").pathExists) then
      top := depth
  tree ← add tree (FileTree.pathOf (names.take top))
  for depth in List.range (names.length + 1) do
    tree ← addMarks tree (FileTree.pathOf (names.take depth))
  return tree

def pathOf : Command → String
  | .index path _ | .watch path | .search _ path _ _ | .stats path => path

/-- What a command line runs on, here and now. -/
def machine (i : Option Invocation) : IO Machine := do
  let directory := (← IO.currentDir).toString
  let mut values : List (String × String) := []
  for name in Config.Environment.names do
    if let some value ← IO.getEnv name then values := (name, value) :: values
  let env := Config.Environment.ofValues values
  let now ← clock
  let some i := i | return { root := .empty, now, directory, env, parser := fun _ _ => none }
  let root ← gather (Path.join directory (pathOf i.command))
  let root ← add root (Path.join directory (Config.resolvePath i.config (env "QUARRY_CONFIG")))
  let m : Machine := { root, now, directory, env, parser := fun _ _ => none }
  match (m.settings i.config).toOption.bind m.database? with
  | some names => return { m with root := ← add root (FileTree.pathOf names) }
  | none => return m

/-- Where the database of a command is, if it has one that stays. -/
def databaseOf (m : Machine) (i : Invocation) : Option String :=
  ((m.settings i.config).toOption.bind m.database?).map FileTree.pathOf

/-- When the database was last written to. -/
def updatedAt (m : Machine) (i : Option Invocation) : IO String := do
  let some path := i.bind (databaseOf m) | return ""
  try
    let modified := (← ((← IO.currentDir) / path).metadata).modified
    return Text.Timestamp.render modified.sec modified.nsec.toNat
  catch _ => return ""

/-- Writes the database of a tree to its place. -/
def writeDatabase (m : Machine) (i : Option Invocation) (root : FileTree) : IO Unit := do
  if let some path := i.bind (databaseOf m) then
    match root.read path, m.root.read path with
    | .ok new, old =>
      if old.toOption.map (·.data) ≠ some new.data then
        IO.FS.createDirAll (FileTree.pathOf (FileTree.namesOf path).dropLast)
        IO.FS.writeBinFile path new
    | _, _ => return

/-- A random identifier. -/
def sessionId : IO String := do
  let bytes := (← IO.getRandomBytes 16).toList
  return Digest.Uuid.render ((bytes.modify 6 fun b => (b &&& 0x0f) ||| 0x40).modify 8 fun b => (b &&& 0x3f) ||| 0x80)

def print (r : Reply) : IO Unit := do
  let out ← IO.getStdout
  out.putStr r.out
  out.flush
  (← IO.getStderr).putStr r.err

/-- Follows the files of a watched project for as long as the program runs. -/
partial def follow (i : Invocation) (c : IndexerConfig) (start : Nat) (root : FileTree) (w : Watcher) : IO Unit := do
  IO.sleep 250
  let m ← machine (some i)
  let w := (w.notice ((root.changes m.root).map FileTree.pathOf)).advance c m.root ((← IO.monoMsNow) - start)
  match databaseOf m i with
  | some path => writeDatabase m (some i) (Machine.saveStore m.root w.indexer.world.store (some (FileTree.namesOf path)))
  | none => pure ()
  follow i c start m.root w

/-- Starts to watch the project of a path. -/
def watch (i : Invocation) (path : String) : IO UInt32 := do
  let m ← machine (some i)
  match m.service i.config with
  | .error reasons => print { err := failureText reasons }; return 1
  | .ok (root, v) =>
    let w : Watcher := { config := v.settings.watch, indexer := v.indexer }
    match w.watch v.config root (m.place path) with
    | .error e => print { err := failureText e.reasons }; return 1
    | .ok (w, _) =>
      follow i v.config (← IO.monoMsNow) m.root w
      return 0

def run (words : List String) : IO UInt32 := do
  let start ← IO.monoMsNow
  let i := (Invocation.ofWords words).toOption
  let m ← machine i
  let (reply, root) := m.run words
  writeDatabase m i root
  let r := reply ⟨← sessionId, (← IO.monoMsNow) - start, ← updatedAt m i⟩
  print r
  let some i := i | return r.code.toUInt32
  match i.command, r.code with
  | .watch path, 0 => watch i path
  | _, code => return code.toUInt32

end CodeIndex.Main

def main (words : List String) : IO UInt32 := CodeIndex.Main.run words
