import CodeIndex.Chunk.Parse
import CodeIndex.Digest.Blake3
import CodeIndex.Files.Discovery
import CodeIndex.Project
import CodeIndex.Retrieval.Hybrid

/-!
Keeping the index of a project in step with its files. A full run finds all files, embeds those whose content is not
the one recorded, and forgets what is gone; single files can be indexed anew or forgotten on their own. Failures of
single files are part of a session; only what concerns a run as a whole makes it fail.
-/

namespace CodeIndex

open CodeIndex.Embedding Files

/-- What an indexer works by. -/
structure IndexerConfig where
  pipeline : PipelineConfig
  ignorePatterns : List String := []
  /-- Larger files take no part. -/
  maxFileBytes : Nat := 1048576
  /-- The syntax tree of a text, if there is a parser for its language. -/
  parser : Language → String → Option Syntax.Node
  identify : FileTree → String → Except StoreError Project := Project.identify

structure Indexer where
  world : World
  lexical : Lexical.Index := {}

/-- The content of a file in short; equal fingerprints are taken for equal contents. -/
def fingerprint (content : ByteArray) : String := Digest.Blake3.hex content

structure ProjectStatus where
  store : ProjectStats
  lexical : Lexical.Stats
  deriving DecidableEq, Repr

/-- A file that has to be embedded, and how many symbols it holds. -/
structure Pending where
  prepared : Prepared
  symbols : Nat

namespace IndexerConfig

def identifyProject (c : IndexerConfig) (root : FileTree) (path : String) : Except IndexError Project :=
  (c.identify root path).mapError fun e => .identity e.message

/-- The rules for a root; a bad pattern is an error. -/
def rules (c : IndexerConfig) (root : String) : Except IndexError Ignore.Rules :=
  (Ignore.Rules.ofLines root c.ignorePatterns).mapError .badPattern

def discover (c : IndexerConfig) (root : FileTree) (dir : String) : Except IndexError (List Discovered) := do
  let rules ← c.rules dir
  match discover? root dir rules c.maxFileBytes with
  | some files => .ok files
  | none => .error (.discovery s!"{dir} is not a readable directory")

end IndexerConfig

/-- The entry of a file with its present content. -/
def entryOf (project : String) (f : Discovered) (language : Language) : FileEntry :=
  { id := fileId project f.rel, project, path := f.rel, hash := fingerprint f.content, language := language.id
    size := f.content.size, lineCount := (Text.lines (Text.decodeLossy f.content)).length
    modifiedMs := f.stat.modifiedMs }

/-- The language of a file that can be read, or why the file cannot be indexed. -/
def Files.Discovered.language (f : Discovered) : Except IndexError Language :=
  match Language.ofPath? f.path with
  | none => .error (.unsupportedLanguage f.rel)
  | some language =>
    match f.stat.fault with
    | some e => .error (.io e.message)
    | none => .ok language

namespace Indexer

/-- The fingerprint recorded for a path, if its file was embedded. -/
def recorded? (x : Indexer) (project rel : String) : Option String :=
  (x.world.store.getFile project rel).map (·.hash)

/-- Whether a file has the content that is recorded for it. -/
def isRecorded (x : Indexer) (project : String) (f : Discovered) : Bool :=
  x.recorded? project f.rel == some (fingerprint f.content)

/-- Reads a file. Words of a file are indexed here, also if its content is recorded but its words are not there. Nothing
is pending for a file whose content is recorded, unless `force` is set. -/
def prepare (c : IndexerConfig) (x : Indexer) (project : String) (f : Discovered) (force : Bool) :
    Indexer × Except IndexError (Option Pending) :=
  match f.language with
  | .error e => (x, .error e)
  | .ok language =>
    let unchanged := !force && x.isRecorded project f
    if unchanged && x.lexical.containsFile project f.rel then (x, .ok none)
    else
      let outline := Chunk.parseBytes language f.content (c.parser language)
      let x := { x with lexical := x.lexical.indexFile project f.rel outline.chunks outline.symbols }
      if unchanged then (x, .ok none)
      else (x, .ok (some ⟨⟨entryOf project f language, outline.chunks⟩, outline.symbols.length⟩))

/-- Reads files one after the other, and books those that need nothing or fail. -/
def prepareAll (c : IndexerConfig) (project : String) (force : Bool) (x : Indexer) (s : Session) :
    List Discovered → Indexer × Session × List Pending
  | [] => (x, s, [])
  | f :: rest =>
    match x.prepare c project f force with
    | (x, .ok none) => prepareAll c project force x { s with filesSkipped := s.filesSkipped + 1 } rest
    | (x, .ok (some p)) =>
      let (x, s, pending) := prepareAll c project force x s rest
      (x, s, p :: pending)
    | (x, .error e) => prepareAll c project force x (s.recordError (some f.rel) e.message) rest

/-- Books what became of a file. -/
def book (s : Session) (o : Outcome) : Session :=
  match o.error with
  | some e => s.recordError (some o.path) e.message
  | none =>
    { s with
      filesProcessed := s.filesProcessed + 1, chunks := s.chunks + o.chunks, embeddings := s.embeddings + o.embedded }

/-- Embeds files. -/
def embed (c : IndexerConfig) (x : Indexer) (project : String) (files : List Prepared) (s : Session) :
    Indexer × Session :=
  if files.isEmpty then (x, s)
  else
    let (world, progress) := x.world.generate c.pipeline project files false
    ({ x with world }, progress.outcomes.foldl book (s.transition .embedding))

/-- Drops a file from the store and from the words, and tells whether it was in either. -/
def forget (x : Indexer) (project rel : String) : Indexer × Bool :=
  let known := x.lexical.containsFile project rel || (x.world.store.getFile project rel).isSome
  ({ lexical := x.lexical.removeFile project rel
     world := { x.world with store := x.world.store.deleteFile (fileId project rel) } }, known)

/-- All paths that the store or the words hold. -/
def paths (x : Indexer) (project : String) : List String :=
  ((x.world.store.listFiles project).map (·.path) ++ x.lexical.files project).eraseDups

/-- Forgets all files but the given ones, and counts them. -/
def removeOrphans (x : Indexer) (project : String) (live : List String) : Indexer × Nat :=
  ((x.paths project).filter (!live.contains ·)).foldl (fun (x, removed) rel =>
    let (x, known) := x.forget project rel
    (x, if known then removed + 1 else removed)) (x, 0)

def failWith (s : Session) (e : IndexError) : SessionFailure := ⟨s.fail e.message, e⟩

/-- A full run over a project whose root is known. -/
def indexRoot (c : IndexerConfig) (root : FileTree) (x : Indexer) (project : Project) (force : Bool) :
    Indexer × Except SessionFailure Session :=
  let s := { project := project.id : Session }.transition .scanning
  match c.discover root project.root with
  | .error e => (x, .error (failWith s e))
  | .ok files =>
    let (world, migrated) := x.world.ensureModel project.id
    let s := { s with filesFound := files.length, migrated }.transition .processing
    let (x, s, pending) := prepareAll c project.id force { x with world } s files
    let s := { s with symbols := s.symbols + total (pending.map (·.symbols)) }
    let (x, s) := x.embed c project.id (pending.map (·.prepared)) s
    let (x, removed) := x.removeOrphans project.id (files.map (·.rel))
    (x, .ok { s with filesRemoved := removed }.complete)

/-- A full run over the project that a path belongs to. Files whose content is recorded are embedded only if `force`
is set. -/
def indexProject (c : IndexerConfig) (root : FileTree) (x : Indexer) (path : String) (force : Bool) :
    Indexer × Except SessionFailure Session :=
  match c.identifyProject root path with
  | .error e => (x, .error (failWith { project := "" } e))
  | .ok project => x.indexRoot c root project force

/-- The path of a file below the root of its project. -/
def relativePath (root file : String) : Except IndexError String :=
  match Path.textBelow? root file with
  | some rel => .ok (normalizePath rel)
  | none => .error (.discovery s!"{file} is outside {root}")

/-- Indexes one file that is there, unless it takes no part. -/
def reindexContent (c : IndexerConfig) (x : Indexer) (project : Project) (file : Discovered) (force : Bool)
    (s : Session) : Indexer × Except SessionFailure Session :=
  match c.rules project.root with
  | .error e => (x, .error (failWith s e))
  | .ok rules =>
    if !rules.accepts file.path ∨ c.maxFileBytes < file.content.size then (x, .ok s.complete)
    else
      let s := { s with filesFound := 1 }.transition .processing
      let (x, s, pending) := prepareAll c project.id force x s [file]
      let s := { s with symbols := s.symbols + total (pending.map (·.symbols)) }
      let (x, s) := x.embed c project.id (pending.map (·.prepared)) s
      (x, .ok s.complete)

/-- Indexes one file as a full run would; a file that is gone is forgotten. If the model has changed the whole project
is indexed instead. -/
def reindexFile (c : IndexerConfig) (root : FileTree) (x : Indexer) (project : Project) (file : String) (force : Bool) :
    Indexer × Except SessionFailure Session :=
  if x.world.needsMigration project.id then x.indexProject c root project.root force
  else
    let s := { project := project.id : Session }.transition .scanning
    match relativePath project.root file with
    | .error e => (x, .error (failWith s e))
    | .ok rel =>
      match root.resolve file with
      | .ok (_, .file content stat) => x.reindexContent c project ⟨file, rel, content, stat⟩ force s
      | .ok (_, .dir _) => (x, .ok s.complete)
      | .error .notFound =>
        let (x, removed) := x.forget project.id rel
        (x, .ok { s with filesRemoved := if removed then 1 else 0 }.complete)
      | .error e => (x, .ok (s.recordError (some rel) e.message).complete)

/-- Forgets a file, and tells whether it was known. -/
def removeFile (x : Indexer) (project : Project) (file : String) : Indexer × Except IndexError Bool :=
  match relativePath project.root file with
  | .error e => (x, .error e)
  | .ok rel =>
    let (x, removed) := x.forget project.id rel
    (x, .ok removed)

/-- Whether a file's content is another than the one recorded; a file that is gone counts as changed. -/
def fileChanged (root : FileTree) (x : Indexer) (project : Project) (file : String) : Except IndexError Bool :=
  match relativePath project.root file with
  | .error e => .error e
  | .ok rel =>
    match root.read file with
    | .ok content => .ok (x.recorded? project.id rel != some (fingerprint content))
    | .error .notFound => .ok true
    | .error e => .error (.io e.message)

/-- Fills the words of a project from the records in the store, and counts these. -/
def warm (x : Indexer) (project : String) : Except IndexError (Indexer × Nat) :=
  match x.world.store.projectRecords project with
  | .error e => .error (.store e)
  | .ok records => .ok ({ x with lexical := x.lexical.indexRecords project records }, records.length)

def status (x : Indexer) (project : String) : ProjectStatus := ⟨x.world.store.stats project, x.lexical.stats project⟩

/-- An indexer as a later process finds it: of all that was there only the store is left. -/
def restart (x : Indexer) (providers : List Provider) : Indexer :=
  { world := { now := x.world.now, providers, health := { config := x.world.health.config }, store := x.world.store } }

end Indexer

end CodeIndex
