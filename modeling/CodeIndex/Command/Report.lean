import CodeIndex.Json.Writer
import CodeIndex.Service

/-!
What a command prints: lines for people, or one JSON value with its members in the order of their names.
-/

namespace CodeIndex.Command

/-- What a report states that does not follow from the index. -/
structure Stamps where
  /-- The identifier of the session. -/
  session : String
  elapsedMs : Nat
  /-- When the store was last written to. -/
  updated : String

/-- What is printed to either stream, and the exit code. -/
structure Reply where
  code : Nat := 0
  out : String := ""
  err : String := ""
  deriving DecidableEq, Repr

/-- The state of a project and of the providers. -/
structure Overview where
  project : Project
  status : ProjectStatus
  active : Option Embedding.Signature
  providers : List (Embedding.Signature × Health.Snapshot)

def lines (ls : List String) : String := String.join (ls.map (· ++ "\n"))

def sessionLines (t : Stamps) (s : Session) : List String :=
  [ s!"project   {s.project}",
    s!"status    {s.status.render}",
    s!"files     {s.filesFound} found, {s.filesProcessed} processed, {s.filesSkipped} unchanged, {s.filesRemoved} removed",
    s!"chunks    {s.chunks} created, {s.embeddings} embedded, {s.symbols} symbols" ] ++
  (if s.migrated then ["model     changed; project re-embedded"] else []) ++
  [s!"elapsed   {t.elapsedMs} ms"] ++
  (if s.isDegraded then s!"errors    {s.errors.length}" :: s.errors.map fun e => "  " ++ e.render else [])

def sessionJson (t : Stamps) (s : Session) : Json :=
  .obj [ ("chunks_created", .ofNat s.chunks),
    ("elapsed_ms", .ofNat t.elapsedMs),
    ("embeddings", .ofNat s.embeddings),
    ("errors", .arr (s.errors.map fun e => .obj [("message", .str e.message), ("path", .ofOption .str e.path)])),
    ("files_found", .ofNat s.filesFound),
    ("files_processed", .ofNat s.filesProcessed),
    ("files_removed", .ofNat s.filesRemoved),
    ("files_skipped", .ofNat s.filesSkipped),
    ("migrated", .bool s.migrated),
    ("project", .str s.project),
    ("session", .str t.session),
    ("status", .str s.status.render),
    ("symbols_extracted", .ofNat s.symbols) ]

/-- How many lines of a chunk are shown. -/
def snippetLines : Nat := 4

def padLeft (width : Nat) (s : String) : String := .ofList (List.replicate (width - s.length) ' ') ++ s

/-- The rankings that a chunk was in. -/
def rankings (c : RetrievedChunk) : String :=
  if c.semantic && c.lexical then "semantic+lexical" else if c.semantic then "semantic" else "lexical"

/-- A chunk with its rank, counted from zero. -/
def resultLines (c : RetrievedChunk) (rank : Nat) : List String :=
  (padLeft 2 (toString (rank + 1)) ++ ". " ++ c.header ++ "  [" ++ c.score.fixed 4 ++ ", " ++ rankings c ++ "]") ::
    ((Text.lines c.content).take snippetLines).map ("      " ++ ·)

def resultsLines (r : Retrieved) : List String :=
  if r.chunks.isEmpty then ["no results"] else (r.chunks.zipIdx.map fun (c, rank) => resultLines c rank).flatten

def strategyName : Strategy → String
  | .hybrid => "hybrid"
  | .lexicalOnly => "lexical"

def resultJson (c : RetrievedChunk) : Json :=
  .obj [ ("content", .str c.content),
    ("end_line", .ofNat c.endLine),
    ("file", .str c.path),
    ("lexical", .bool c.lexical),
    ("score", .ofSingle c.score),
    ("semantic", .bool c.semantic),
    ("start_line", .ofNat c.startLine),
    ("symbol", .ofOption .str c.symbolName) ]

def resultsJson (r : Retrieved) : Json :=
  .obj [("results", .arr (r.chunks.map resultJson)), ("strategy", .str (strategyName r.strategy))]

def providerLine (p : Embedding.Signature × Health.Snapshot) : String :=
  s!"provider  {p.1.render} {p.2.circuit.render} (failures {p.2.failures}, concurrency {p.2.concurrency})"

def overviewLines (t : Stamps) (o : Overview) : List String :=
  let (store, lexical) := (o.status.store, o.status.lexical)
  [ s!"project   {o.project.name} ({o.project.id})",
    s!"root      {o.project.root}",
    s!"store     {store.files} files, {store.chunks} chunks" ] ++
  (if store.updated then [s!"updated   {t.updated}"] else []) ++
  [ s!"lexical   {lexical.files} files, {lexical.chunks} chunks, {lexical.symbols} symbols",
    "model     " ++ ((o.active.map (·.render)).getD "none available") ] ++
  o.providers.map providerLine

def providerJson (p : Embedding.Signature × Health.Snapshot) : Json :=
  .obj [ ("concurrency", .ofNat p.2.concurrency),
    ("failures", .ofNat p.2.failures),
    ("provider", .str p.1.render),
    ("rate_limit_hits", .ofNat p.2.rateLimitHits),
    ("state", .str p.2.circuit.render) ]

def statusJson (t : Stamps) (s : ProjectStatus) : Json :=
  .obj [ ("lexical", .obj [ ("chunks", .ofNat s.lexical.chunks), ("files", .ofNat s.lexical.files),
      ("symbols", .ofNat s.lexical.symbols) ]),
    ("store", .obj [ ("last_updated", if s.store.updated then .str t.updated else .null),
      ("total_chunks", .ofNat s.store.chunks), ("total_files", .ofNat s.store.files) ]) ]

def overviewJson (t : Stamps) (o : Overview) : Json :=
  .obj [ ("active_model", .ofOption (fun s => .str s.render) o.active),
    ("project", .str o.project.id),
    ("providers", .arr (o.providers.map providerJson)),
    ("root", .str o.project.root),
    ("status", statusJson t o.status) ]

/-- A text whose further lines stand as deep as its first. -/
def indented (first rest text : String) : String :=
  first ++ ("\n" ++ rest).intercalate ((text.toList.splitOn '\n').map .ofList)

/-- An error with what caused it; several causes are numbered. -/
def failureText (reasons : List String) : String :=
  let causes := match reasons.drop 1 with
    | [] => []
    | [cause] => ["", "", "Caused by:", indented "    " "    " cause]
    | several => ["", "", "Caused by:"] ++ several.zipIdx.map fun (cause, i) =>
      indented (padLeft 5 (toString i) ++ ": ") "       " cause
  "Error: " ++ (reasons.head?.getD "") ++ (if causes.isEmpty then "" else "\n".intercalate causes) ++ "\n"

end CodeIndex.Command
