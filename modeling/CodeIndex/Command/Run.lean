import CodeIndex.Command.Help
import CodeIndex.Command.Report
import CodeIndex.Config.Chain
import CodeIndex.Config.Environment
import CodeIndex.Config.Read
import CodeIndex.Retrieval.Hybrid
import CodeIndex.Store.Saved

/-!
Running a command line on a tree of files. The database is a file of the tree: it is read when the services are put
together and written at the end, so that a later run finds what this one left.
-/

namespace CodeIndex.Command

open Config

/-- What a command line runs on. -/
structure Machine where
  root : FileTree
  /-- What the clock shows, in nanoseconds since the epoch. -/
  now : Nat := 0
  /-- The directory that relative paths start from. -/
  directory : String
  env : Environment
  /-- The syntax tree of a text, if there is a parser for its language. -/
  parser : Language → String → Option Syntax.Node

/-- How a command ends; `context` asks for a block of context in place of a list. -/
inductive Outcome where
  | session (s : Session) (cause : Option IndexError)
  | results (r : Retrieved) (context : Bool)
  | overview (o : Overview)
  | failed (reasons : List String)

/-- The reply to a command. What is not text for people is JSON, if that is asked for. -/
def Outcome.reply (json : Bool) (t : Stamps) : Outcome → Reply
  | session s cause =>
    let out := if json then lines [(sessionJson t s).pretty] else lines (sessionLines t s)
    match cause with
    | none => { out }
    | some e => { code := 1, out, err := failureText ("indexing failed" :: e.reasons) }
  | results r context =>
    if context then { out := lines [formatContext r.chunks] }
    else if json then { out := lines [(resultsJson r).pretty] }
    else { out := lines (resultsLines r) }
  | overview o => { out := if json then lines [(overviewJson t o).pretty] else lines (overviewLines t o) }
  | failed reasons => { code := 1, err := failureText reasons }

namespace Machine

def place (m : Machine) (path : String) : String := Path.join m.directory path

/-- The settings of a file, or the usual ones if it is not there. -/
def fileSettings (m : Machine) (path : String) : Except (List String) Settings :=
  let unreadable (reason : String) := [s!"failed to read config file {path}", reason]
  if path.isEmpty then .ok {} else
  match m.root.read (m.place path) with
  | .error .notFound | .error .notDirectory => .ok {}
  | .error e => .error (unreadable e.message)
  | .ok content =>
    match Text.decodeUtf8? content with
    | none => .error (unreadable "stream did not contain valid UTF-8")
    | some text =>
      match Config.ofText? text with
      | none => .error [s!"failed to parse config file {path}", "TOML parse error"]
      | some settings => .ok settings

/-- The settings of a run, with nothing wrong with them. -/
def settings (m : Machine) (explicit : Option String) : Except (List String) Settings := do
  let s := (← m.fileSettings (resolvePath explicit (m.env "QUARRY_CONFIG"))).override m.env
  match s.fault? with
  | some fault => throw ["invalid configuration", fault.message]
  | none => return s

/-- A database of this name lives no longer than the run. -/
def transient : String := ":memory:"

/-- The names of the database, if the settings name one that stays. -/
def database? (m : Machine) (s : Settings) : Option (List String) :=
  if s.index.store = .sqlite ∧ s.index.databasePath ≠ transient then
    some (FileTree.namesOf (m.place s.index.databasePath))
  else none

/-- The tables in the tree at some names. -/
def loadTables (root : FileTree) (names : List String) : Except StoreError TableStore :=
  match (root.get? names).map FileTree.content with
  | none => .ok {}
  | some (.error _) => .error .sqlite
  | some (.ok content) =>
    match TableStore.load? content with
    | some tables => .ok tables
    | none => .error .sqlite

/-- The store that the settings name, and the tree with a directory for it. -/
def openStore (m : Machine) (s : Settings) : Except (List String) (FileTree × Store) :=
  let limit := s.index.maxDimensions
  let opened (e : StoreError) := s!"failed to open index database {s.index.databasePath}" :: e.reasons
  match m.database? s with
  | none => .ok (m.root, if s.index.store = .memory then .memory { limit, now := m.now } else .table { limit, now := m.now })
  | some names =>
    match m.root.makeDir? names.dropLast with
    | .error e => .error (opened (.io e.message))
    | .ok root =>
      match loadTables root names with
      | .error e => .error (opened e)
      | .ok tables => .ok (root, .table { tables with limit, now := m.now })

/-- The tree with the store written to its place. -/
def saveStore (root : FileTree) (store : Store) (names : Option (List String)) : FileTree :=
  match store, names with
  | .table tables, some names => FileTree.put (.file tables.save.toUTF8) names root
  | _, _ => root

/-- Opens the project that a path belongs to. -/
def openProject (m : Machine) (v : Service) (path : String) : Except (List String) (Service × Project) :=
  match v.openProject m.root (m.place path) with
  | .ok opened => .ok opened
  | .error (.identity text) => .error (s!"cannot open project at {path}" :: (IndexError.identity text).reasons)
  | .error e => .error e.reasons

def overviewOf (v : Service) (project : Project) : Overview :=
  let w := v.indexer.world
  { project
    status := v.indexer.status project.id
    active := w.activeSignature
    providers := w.providers.map fun p => (p.signature, w.health.snapshot w.now p.name) }

/-- Carries out a command, and gives back the store as it is left. -/
def perform (m : Machine) (v : Service) : Command → Outcome × Store
  | index path force =>
    let (x, r) := v.indexer.indexProject v.config m.root (m.place path) force
    match r with
    | .ok s => (.session s none, x.world.store)
    | .error f => (.session f.session (some f.cause), x.world.store)
  | watch path => perform m v (index path false)
  | search query path limit context =>
    match m.openProject v path with
    | .error reasons => (.failed reasons, v.indexer.world.store)
    | .ok (v, project) =>
      let x := v.indexer
      let (w, r) := retrieve v.config.pipeline v.settings.retrieval x.lexical x.world project.id query limit
      match r with
      | .ok found => (.results found context, w.store)
      | .error e => (.failed e.reasons, w.store)
  | stats path =>
    match m.openProject v path with
    | .error reasons => (.failed reasons, v.indexer.world.store)
    | .ok (v, project) => (.overview (overviewOf v project), v.indexer.world.store)
termination_by c => match c with
  | watch _ => 1
  | _ => 0

/-- The services that the settings name, and the tree with their database in it. -/
def service (m : Machine) (explicit : Option String) : Except (List String) (FileTree × Service) := do
  let s ← m.settings explicit
  let providers ← s.chain.mapError fun e => [e.message]
  let (root, store) ← m.openStore s
  return (saveStore root store (m.database? s), .build s providers m.parser store)

/-- Carries out what was asked for; the tree is given back as the run leaves it. -/
def invoke (m : Machine) (i : Invocation) : Outcome × FileTree :=
  match m.service i.config with
  | .error reasons => (.failed reasons, m.root)
  | .ok (root, v) =>
    let m := { m with root }
    let (outcome, store) := m.perform v i.command
    (outcome, saveStore m.root store (m.database? v.settings))

/-- Reads the words of a command line and runs it. What the reply states of times is filled in afterwards. -/
def run (m : Machine) (words : List String) : (Stamps → Reply) × FileTree :=
  match Invocation.ofWords words with
  | .error (.help topic) => (fun _ => { out := helpText topic }, m.root)
  | .error .version => (fun _ => { out := versionLine }, m.root)
  | .error .refused => (fun _ => { code := 2, err := s!"Usage: {usageOf none}\n" }, m.root)
  | .ok i =>
    let (outcome, root) := m.invoke i
    (outcome.reply i.json, root)

end Machine

end CodeIndex.Command
