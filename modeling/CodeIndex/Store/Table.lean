import CodeIndex.Store.Memory

/-!
A store in three tables: files, with their identifiers as key and no two of one project under the same path;
embeddings, with their identifiers as key; and the widest vector length announced. Integers are signed and of 64
bits, and vectors are kept as little-endian bytes.
-/

namespace CodeIndex

open Number CodeIndex.Embedding

/-- A record without its vector, the bytes of the vector, and when the row was written. -/
structure TableStore.Row where
  record : Record
  bytes : List UInt8
  createdAt : Nat

structure TableStore where
  files : List FileEntry := []
  /-- When the row of each file was last written, by its identifier; rows that are gone are not asked for. -/
  updatedAt : List (String × Nat) := []
  /-- In the order of insertion; a record that is replaced counts as inserted anew. -/
  embeddings : List TableStore.Row := []
  widest : Nat := 0
  limit : Option Nat := none
  /-- What the clock shows. -/
  now : Nat := 0

namespace TableStore

/-- An integer column holds numbers below `2 ^ 63`. -/
def column (n : Nat) : Except StoreError Nat := if n < Nat.pow 2 63 then .ok n else .error .integerRange

def bytesOf (x : Single) : List UInt8 :=
  [x.bits.toUInt8, (x.bits >>> 8).toUInt8, (x.bits >>> 16).toUInt8, (x.bits >>> 24).toUInt8]

/-- The bytes of a vector, four for every component. -/
def encode (v : Vec) : List UInt8 := v.toList.flatMap bytesOf

/-- The components that bytes hold; up to three bytes at the end that make no component are passed over. -/
def decodeList (out : List Single) : List UInt8 → List Single
  | a :: b :: c :: d :: rest =>
    decodeList (⟨a.toUInt32 ||| (b.toUInt32 <<< 8) ||| (c.toUInt32 <<< 16) ||| (d.toUInt32 <<< 24)⟩ :: out) rest
  | _ => out.reverse

def decode (bytes : List UInt8) : Vec := (decodeList [] bytes).toArray

def checkLimit (s : TableStore) (dimensions : Nat) : Except StoreError Unit :=
  match s.limit with
  | some limit => if limit < dimensions then .error (.dimensionUnsupported dimensions limit) else .ok ()
  | none => .ok ()

/-- Updates the row with that identifier, save for its project and path, or adds a row. -/
def putFile (s : TableStore) (f : FileEntry) : Except StoreError TableStore := do
  let path := normalizePath f.path
  let size ← column f.size
  let lineCount ← column f.lineCount
  let updatedAt := upsert Prod.fst (f.id, s.now) s.updatedAt
  if s.files.any (·.id == f.id) then
    return { s with
      updatedAt
      files := s.files.map fun g =>
        if g.id == f.id then
          { g with hash := f.hash, language := f.language, size, lineCount, modifiedMs := f.modifiedMs }
        else g }
  else if s.files.any fun g => g.project == f.project && g.path == path then throw .sqlite
  else return { s with updatedAt, files := s.files ++ [{ f with path }] }

def getFile (s : TableStore) (project path : String) : Option FileEntry :=
  s.files.find? fun f => f.project == project && f.path == normalizePath path

def filesOf (s : TableStore) (project : String) : List FileEntry := s.files.filter (·.project == project)

def listFiles (s : TableStore) (project : String) : List FileEntry := byPath (s.filesOf project)

def deleteFile (s : TableStore) (id : String) : TableStore :=
  { s with files := s.files.filter (·.id != id), embeddings := s.embeddings.filter (·.record.fileId != id) }

def deleteRecords (s : TableStore) (fileId : String) : TableStore × Nat :=
  ({ s with embeddings := s.embeddings.filter (·.record.fileId != fileId) },
    s.embeddings.countP (·.record.fileId == fileId))

/-- Writes a record whole, or leaves the tables as they are. -/
def put (s : TableStore) (r : Record) : Except StoreError TableStore := do
  s.checkLimit r.dimensions
  let index ← column r.index
  let dimensions ← column r.dimensions
  let startLine ← column r.startLine
  let endLine ← column r.endLine
  let row : Row := ⟨{ r with index, dimensions, startLine, endLine, vector := #[] }, encode r.vector, s.now⟩
  return { s with embeddings := s.embeddings.filter (·.record.id != r.id) ++ [row] }

/-- Reads a row back; its vector has to be as long as the row says. -/
def ofRow (row : Row) : Except StoreError Record :=
  let vector := decode row.bytes
  if vector.size = row.record.dimensions then .ok { row.record with vector }
  else .error (.corrupt row.record.id s!"vector has {vector.size} values, expected {row.record.dimensions}")

def rowsOf (s : TableStore) (project : String) : List Row := s.embeddings.filter (·.record.project == project)

/-- When the row of a file was last written. -/
def writtenAt (s : TableStore) (id : String) : Nat := (s.updatedAt.lookup id).getD 0

def stats (s : TableStore) (project : String) : ProjectStats :=
  let times := (s.rowsOf project).map (·.createdAt) ++ (s.filesOf project).map fun f => s.writtenAt f.id
  ⟨(s.rowsOf project).length, (s.filesOf project).length, times.max?⟩

def widen (s : TableStore) (dimensions : Nat) : Except StoreError TableStore := do
  s.checkLimit dimensions
  if s.widest < dimensions then return { s with widest := ← column dimensions } else return s

def search (s : TableStore) (project : String) (query : Vec) (k : Nat) (minScore : Single) :
    Except StoreError (List Scored) := do
  let size ← column query.size
  let records ← ((s.rowsOf project).filter (·.record.dimensions == size)).mapM ofRow
  return nearest records query k minScore

/-- Groups come in the order of their providers, then of their dimensions, then of their formats. -/
def groupsBefore (a b : Signature × Nat) : Bool :=
  decide (a.1.provider < b.1.provider) || (a.1.provider == b.1.provider &&
    (decide (a.1.dimensions < b.1.dimensions) || (a.1.dimensions == b.1.dimensions &&
      decide (a.1.format ≤ b.1.format))))

/-- The signatures of a project's rows in groups, each with its count. -/
def signatures (s : TableStore) (project : String) : List (Signature × Nat) :=
  (tally ((s.rowsOf project).map (·.record))).mergeSort groupsBefore

def checkModel (s : TableStore) (project : String) (current : Signature) : ModelChange :=
  modelChange (s.signatures project) current

def projectModel (s : TableStore) (project : String) : Option Signature :=
  majoritySignature (s.signatures project)

def clear (s : TableStore) (project : String) : TableStore × Nat :=
  ({ s with
      files := s.files.filter (·.project != project)
      embeddings := s.embeddings.filter (·.record.project != project) },
    (s.rowsOf project).length)

def projectRecords (s : TableStore) (project : String) : Except StoreError (List Record) :=
  ((s.rowsOf project).mergeSort fun a b =>
    decide (a.record.path < b.record.path) ||
      (a.record.path == b.record.path && decide (a.record.index ≤ b.record.index))).mapM ofRow

/-- The same tables opened again, without a limit. -/
def reopen (s : TableStore) : TableStore := { s with limit := none }

end TableStore

end CodeIndex
