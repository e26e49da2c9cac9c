import CodeIndex.Chunk.Split
import CodeIndex.Embedding.Batch

/-!
Embedding many files. A few files are under way at a time, each with all its batches; when the last batch of a
file is done, the file's records are replaced, unless some batch failed. Then the next file begins. Time passes
only when no batch has anything to do.
-/

namespace CodeIndex.Embedding

/-- A file ready to be embedded. Its entry is stored once all its chunks are. -/
structure Prepared where
  file : FileEntry
  chunks : List Chunk
  deriving DecidableEq, Repr

/-- What became of one file. -/
structure Outcome where
  path : String
  /-- Chunks after those that were too long were split. -/
  chunks : Nat
  embedded : Nat := 0
  failedBatches : Nat := 0
  /-- The provider of the last record written. -/
  provider : Option String := none
  error : Option IndexError := none
  deriving DecidableEq, Repr

/-- A file under way; batches go by their place. -/
structure Job where
  id : Nat
  file : FileEntry
  chunks : List Chunk
  batches : List Batch

/-- The sum of some counts. -/
def total (counts : List Nat) : Nat := counts.foldr (· + ·) 0

/-- Texts in groups of `size`, the last of them shorter if need be. -/
def grouped (size : Nat) (texts : List α) : List (List α) :=
  (List.range ((texts.length + size - 1) / size)).map fun i => (texts.drop (i * size)).take size

/-- The chunks of a file, split where they are too long, in batches at the head of the chain. -/
def Job.ofPrepared (c : PipelineConfig) (id : Nat) (p : Prepared) : Job :=
  let chunks := Chunk.splitOversized p.chunks c.maxChunkSize c.overlapLines
  let texts := chunks.map (Chunk.contextualize p.file.path p.file.language)
  { id, file := p.file, chunks, batches := (grouped (max 1 c.batchSize) texts).map (⟨·, false, .choose 0⟩) }

/-- The record of a chunk of a file. -/
def recordOf (project : String) (file : FileEntry) (chunk : Chunk) (vector : Vec) (signature : Signature) : Record :=
  { id := chunkId project file.path chunk.index, project, fileId := file.id, path := file.path, index := chunk.index,
    content := chunk.content, vector, dimensions := vector.size, format := signature.format,
    provider := signature.provider, hash := file.hash, startLine := chunk.startLine, endLine := chunk.endLine,
    symbolName := chunk.symbolName, symbolType := chunk.symbolType, language := file.language }

/-- Puts records one after the other, up to the first that is refused. -/
def putAll (store : Store) : List Record → Store × Except StoreError Unit
  | [] => (store, .ok ())
  | r :: rest =>
    match store.put r with
    | .ok store => putAll store rest
    | .error e => (store, .error e)

/-- Replaces a file's records, and then its entry. What was written before a refusal stays. -/
def persist (store : Store) (file : FileEntry) (records : List Record) : Store × Except StoreError Unit :=
  match putAll (store.deleteRecords file.id).1 records with
  | (store, .error e) => (store, .error e)
  | (store, .ok ()) =>
    match store.putFile file with
    | .ok store => (store, .ok ())
    | .error e => (store, .error e)

/-- The records of chunks whose batches were all embedded. -/
def Job.records (project : String) (j : Job) (embedded : List Embedded) : List Record :=
  let vectors := embedded.flatMap fun e => e.vectors.map (·, e.signature)
  (j.chunks.zip vectors).map fun (chunk, vector, signature) => recordOf project j.file chunk vector signature

/-- The end of a file whose batches are all done. -/
def Job.finish (project : String) (store : Store) (j : Job) (results : List (Except IndexError Embedded)) :
    Store × Outcome :=
  let outcome : Outcome := { path := j.file.path, chunks := j.chunks.length }
  let errors := results.filterMap fun
    | .error e => some e
    | .ok _ => none
  match errors with
  | e :: _ => (store, { outcome with failedBatches := errors.length, error := some e })
  | [] =>
    let records := j.records project (results.filterMap Except.toOption)
    match persist store j.file records with
    | (store, .error e) => (store, { outcome with error := some (.store e) })
    | (store, .ok ()) =>
      (store, { outcome with embedded := records.length, provider := records.getLast?.map (·.provider) })

/-- Lets batches of a file do what they can, in order; the first of them is number `i`. -/
def advanceAll (c : PipelineConfig) (id : Nat) (f : Floor) (i : Nat) : List Batch → Floor × List Batch
  | [] => (f, [])
  | b :: rest =>
    let (f, b) := b.advance c ⟨id, i⟩ f
    let (f, rest) := advanceAll c id f (i + 1) rest
    (f, b :: rest)

/-- Lets all batches of a file do what they can. -/
def Job.advance (c : PipelineConfig) (j : Job) (f : Floor) : Floor × Job :=
  let (f, batches) := advanceAll c j.id f 0 j.batches
  (f, { j with batches })

def Job.results? (j : Job) : Option (List (Except IndexError Embedded)) :=
  j.batches.mapM Batch.result?

structure Run where
  floor : Floor
  active : List Job
  waiting : List Job
  outcomes : List Outcome := []

namespace Run

/-- Starts the first files and leaves the others waiting. -/
def start (c : PipelineConfig) (w : World) (files : List Prepared) : Run :=
  let jobs := files.zipIdx.map fun (p, id) => Job.ofPrepared c id p
  let active := jobs.take (max 1 c.fileConcurrency)
  { floor := { w with freePermits := max 1 c.batchConcurrency, ready := active.map (·.id) }
    active, waiting := jobs.drop (max 1 c.fileConcurrency) }

/-- The first waiting file takes the place of one that is done. -/
def startNext (r : Run) : Run :=
  match r.waiting with
  | [] => r
  | j :: rest => { r with floor := r.floor.wake j.id, active := r.active ++ [j], waiting := rest }

/-- Looks at a file: its batches go on, and if they are all done, so is the file. -/
def visit (c : PipelineConfig) (project : String) (r : Run) (id : Nat) : Run :=
  match r.active.find? (·.id == id) with
  | none => r
  | some j =>
    let (floor, j) := j.advance c r.floor
    match j.results? with
    | none => { r with floor, active := r.active.map fun k => if k.id == id then j else k }
    | some results =>
      let (store, outcome) := j.finish project floor.store results
      startNext
        { r with
          floor := { floor with store }
          active := r.active.filter (·.id != id)
          outcomes := r.outcomes ++ [outcome] }

/-- The batches that wait for a time to come: that time, since when, and their files. -/
def alarms (r : Run) : List (Nat × Nat × Nat) :=
  r.active.flatMap fun j => j.batches.filterMap fun b => (b.wakeAt? r.floor).map (·, b.since, j.id)

/-- Lets time pass until some batch goes on. Of those whose time comes, the ones that waited longest go first. -/
def awaken? (r : Run) : Option Run :=
  match r.alarms.map (·.1) with
  | [] => none
  | t :: ts =>
    let wake := ts.foldl min t
    let due := (r.alarms.filter (·.1 ≤ wake)).mergeSort fun a b => decide (a.2.1 ≤ b.2.1)
    some { r with floor := (due.map (·.2.2)).foldl Floor.wake { r.floor with now := max r.floor.now wake } }

/-- Looks at the next file that is to be looked at, if need be after some time. -/
def step? (c : PipelineConfig) (project : String) (r : Run) : Option Run :=
  (if r.floor.ready.isEmpty then r.awaken? else some r).bind fun r =>
    match r.floor.ready with
    | [] => none
    | id :: rest => some (visit c project { r with floor := { r.floor with ready := rest } } id)

/-- How far all batches still have to go, and how many files are not done. -/
def distance (c : PipelineConfig) (r : Run) : Nat :=
  total ((r.active ++ r.waiting).map fun j =>
    total (j.batches.map (·.distance r.floor.providers.length c.retry.attempts)) + 1)

/-- What is left to do. A batch that goes on may give all others something to look at, so the distance counts
first; then come the batches that do not look for a slot yet, and last the files to be looked at. -/
def work (c : PipelineConfig) (r : Run) : Nat × Nat × Nat :=
  (r.distance c, total ((r.active ++ r.waiting).map (·.batches.length)) - r.floor.slotQueue.length,
    r.floor.ready.length)

/-- Whether `a` is the smaller in the first place where the two differ. -/
def lighter (a b : Nat × Nat × Nat) : Bool :=
  decide (a.1 < b.1) ||
    (a.1 == b.1 && (decide (a.2.1 < b.2.1) || (a.2.1 == b.2.1 && decide (a.2.2 < b.2.2))))

theorem lex_of_lighter {a b : Nat × Nat × Nat} (h : lighter a b = true) :
    Prod.Lex (· < ·) (Prod.Lex (· < ·) (· < ·)) a b := by
  obtain ⟨a₁, a₂, a₃⟩ := a
  obtain ⟨b₁, b₂, b₃⟩ := b
  simp only [lighter, Bool.or_eq_true, Bool.and_eq_true, decide_eq_true_eq, beq_iff_eq] at h
  rcases h with h | ⟨rfl, h | ⟨rfl, h⟩⟩
  · exact .left _ _ h
  · exact .right _ (.left _ _ h)
  · exact .right _ (.right _ h)

/-- Steps until all files are done, or wait for what cannot come. -/
def complete (c : PipelineConfig) (project : String) (r : Run) : Run :=
  match r.step? c project with
  | none => r
  | some r' => if lighter (r'.work c) (r.work c) then complete c project r' else r'
termination_by r.work c
decreasing_by
  rename_i h
  exact lex_of_lighter h

end Run

/-- What became of all files, in the order in which they were done. -/
structure Progress where
  outcomes : List Outcome := []
  /-- The model had changed, and the project was cleared. -/
  migrated : Bool := false
  deriving DecidableEq, Repr

namespace Progress

def totalChunks (p : Progress) : Nat := total (p.outcomes.map (·.chunks))

def embedded (p : Progress) : Nat := total (p.outcomes.map (·.embedded))

def failedBatches (p : Progress) : Nat := total (p.outcomes.map (·.failedBatches))

def provider (p : Progress) : Option String := (p.outcomes.filterMap (·.provider)).getLast?

end Progress

namespace World

/-- The signature that new embeddings should carry: that of the first provider that may be called. -/
def activeSignature (w : World) : Option Signature :=
  (w.providers.find? fun p => w.health.isAvailable w.now p.name).map (·.signature)

/-- Whether some record of the project was made with another model than the active one. -/
def needsMigration (w : World) (project : String) : Bool :=
  match w.activeSignature with
  | none => false
  | some current => (w.store.checkModel project current).changed

/-- Clears a project whose records were made with another model, and tells whether it did. -/
def ensureModel (w : World) (project : String) : World × Bool :=
  if w.needsMigration project then ({ w with store := (w.store.clear project).1 }, true) else (w, false)

/-- Embeds files and stores their records. Failures of files are part of the answer. -/
def generate (c : PipelineConfig) (w : World) (project : String) (files : List Prepared) (verify : Bool) :
    World × Progress :=
  let (w, migrated) := if verify then w.ensureModel project else (w, false)
  let r := (Run.start c w files).complete c project
  (r.floor.toWorld, { outcomes := r.outcomes, migrated })

/-- Embeds one batch with nothing beside it; nothing if it waits for what cannot come. -/
def embedAlone (c : PipelineConfig) (w : World) (b : Batch) : World × Option (Except IndexError Embedded) :=
  let (f, b) := b.runAlone c { w with freePermits := max 1 c.batchConcurrency }
  (f.toWorld, b.result?)

/-- The provider of the model that most of a project's records were made with, if that is not the active one, is
there and may be called. -/
def storedProvider? (w : World) (project : String) : Option Nat := do
  let stored ← w.store.projectModel project
  guard (w.activeSignature ≠ some stored)
  let i ← w.providers.findIdx? (·.signature == stored)
  let p ← w.providers[i]?
  guard (w.health.isAvailable w.now p.name)
  return i

/-- The answer of the provider of the stored model, if it is one vector. -/
def embedStored? (c : PipelineConfig) (w : World) (text : String) (i : Nat) : World × Option Vec :=
  match w.embedAlone c ⟨[text], true, .choose i⟩ with
  | (w, some (.ok ⟨[v], _⟩)) =>
    if v.isEmpty then (w, none)
    else
      match w.providers[i]? with
      | some p => ({ w with health := w.health.recordSuccess p.name }, some v)
      | none => (w, some v)
  | (w, _) => (w, none)

/-- Embeds a query by the chain of providers. -/
def embedLive (c : PipelineConfig) (w : World) (text : String) : World × Except IndexError Vec :=
  match w.embedAlone c ⟨[text], false, .choose 0⟩ with
  | (w, some (.ok e)) =>
    match e.vectors.head? with
    | some v => (w, .ok v)
    | none => (w, .error (.embed (.emptyResponse e.signature.provider)))
  | (w, some (.error e)) => (w, .error e)
  | (w, none) => (w, .error (.embed .noProvider))

/-- Embeds a query by the model that the project's records were made with, so that they can be compared, or else
by the chain of providers. -/
def embedQuery (c : PipelineConfig) (w : World) (text : String) (project : Option String) :
    World × Except IndexError Vec :=
  match project.bind w.storedProvider? with
  | none => w.embedLive c text
  | some i =>
    match w.embedStored? c text i with
    | (w, some v) => (w, .ok v)
    | (w, none) => w.embedLive c text

end World

end CodeIndex.Embedding
