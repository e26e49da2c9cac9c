import CodeIndex.Store.Record

/-!
A store that lives as long as the process. Entries and records are kept by identifier: what comes later under
the same identifier takes the place of what came before.
-/

namespace CodeIndex

open Number CodeIndex.Embedding

/-- Puts `x` in the place of what has its key, or at the end. -/
def upsert [BEq κ] (key : α → κ) (x : α) (xs : List α) : List α :=
  if xs.any (key · == key x) then xs.map fun y => if key y == key x then x else y else xs ++ [x]

/-- Files in the order of their paths. -/
def byPath (files : List FileEntry) : List FileEntry :=
  files.mergeSort fun a b => decide (a.path ≤ b.path)

/-- Records in the order of their paths, and of their numbers within a path. -/
def byPosition (records : List Record) : List Record :=
  records.mergeSort fun a b => decide (a.path < b.path) || (a.path == b.path && decide (a.index ≤ b.index))

/-- Whether `a` stands before `b` among search results: the higher score first, then the smaller identifier. -/
def Scored.before (a b : Scored) : Bool :=
  decide (b.score.rank < a.score.rank) ||
    (a.score.rank == b.score.rank && decide (a.record.id ≤ b.record.id))

/-- The best `k` of the records that reach `minScore` against `query`. -/
def nearest (records : List Record) (query : Vec) (k : Nat) (minScore : Single) : List Scored :=
  let scored := records.map fun r => (⟨r, cosine query r.vector⟩ : Scored)
  ((scored.filter fun s => minScore.le s.score).mergeSort Scored.before).take k

structure MemoryStore where
  files : List FileEntry := []
  records : List Record := []
  /-- When each project was last written to, if it ever was. -/
  touched : List (String × Nat) := []
  widest : Nat := 0
  limit : Option Nat := none
  /-- What the clock shows. -/
  now : Nat := 0

namespace MemoryStore

/-- Notes the time for a project that is written to. -/
def touch (s : MemoryStore) (project : String) : MemoryStore :=
  { s with touched := upsert Prod.fst (project, s.now) s.touched }

/-- Refuses vectors longer than the limit, if there is one. -/
def checkLimit (s : MemoryStore) (dimensions : Nat) : Except StoreError Unit :=
  match s.limit with
  | some limit => if limit < dimensions then .error (.dimensionUnsupported dimensions limit) else .ok ()
  | none => .ok ()

def filesOf (s : MemoryStore) (project : String) : List FileEntry := s.files.filter (·.project == project)

def recordsOf (s : MemoryStore) (project : String) : List Record := s.records.filter (·.project == project)

def putFile (s : MemoryStore) (f : FileEntry) : MemoryStore :=
  { s.touch f.project with files := upsert FileEntry.id f s.files }

def getFile (s : MemoryStore) (project path : String) : Option FileEntry :=
  s.files.find? fun f => f.project == project && f.path == normalizePath path

def listFiles (s : MemoryStore) (project : String) : List FileEntry := byPath (s.filesOf project)

/-- Removes a file's entry together with its records. -/
def deleteFile (s : MemoryStore) (id : String) : MemoryStore :=
  let t := match s.files.find? (·.id == id) with
    | some f => s.touch f.project
    | none => s
  { t with files := s.files.filter (·.id != id), records := s.records.filter (·.fileId != id) }

def deleteRecords (s : MemoryStore) (fileId : String) : MemoryStore × Nat :=
  ({ s with records := s.records.filter (·.fileId != fileId) }, s.records.countP (·.fileId == fileId))

def put (s : MemoryStore) (r : Record) : Except StoreError MemoryStore := do
  s.checkLimit r.dimensions
  return { s.touch r.project with
    records := upsert Record.id r s.records
    widest := max s.widest r.dimensions }

def stats (s : MemoryStore) (project : String) : ProjectStats :=
  ⟨(s.recordsOf project).length, (s.filesOf project).length, s.touched.lookup project⟩

/-- Makes room for vectors of that length. -/
def widen (s : MemoryStore) (dimensions : Nat) : Except StoreError MemoryStore := do
  s.checkLimit dimensions
  return { s with widest := max s.widest dimensions }

def search (s : MemoryStore) (project : String) (query : Vec) (k : Nat) (minScore : Single) : List Scored :=
  nearest ((s.recordsOf project).filter (·.vector.size == query.size)) query k minScore

def checkModel (s : MemoryStore) (project : String) (current : Signature) : ModelChange :=
  modelChange (tally (s.recordsOf project)) current

def projectModel (s : MemoryStore) (project : String) : Option Signature :=
  majoritySignature (tally (s.recordsOf project))

/-- Removes all that a project has here, and counts its records. -/
def clear (s : MemoryStore) (project : String) : MemoryStore × Nat :=
  ({ s.touch project with
      files := s.files.filter (·.project != project)
      records := s.records.filter (·.project != project) },
    (s.recordsOf project).length)

def projectRecords (s : MemoryStore) (project : String) : List Record := byPosition (s.recordsOf project)

end MemoryStore

end CodeIndex
