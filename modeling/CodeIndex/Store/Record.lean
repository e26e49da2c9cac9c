import CodeIndex.Digest.Uuid
import CodeIndex.Embedding.Hashing
import CodeIndex.Embedding.Signature
import CodeIndex.Text.Search

/-!
What an index keeps: an entry for every indexed file and a record for every embedded chunk, with identifiers
derived from the project, the normalized path and the chunk's number.
-/

namespace CodeIndex

open Number CodeIndex.Embedding

/-- Drops leading pairs of dot and slash. -/
def dropDotSlashes : List Char → List Char
  | '.' :: '/' :: rest => dropDotSlashes rest
  | cs => cs

/-- The spelling of a relative path that identifiers are derived from: slashes only, none in front, and no
leading dots that mean the same directory. -/
def normalizePath (path : String) : String :=
  .ofList ((dropDotSlashes (path.toList.map fun c => if c = '\\' then '/' else c)).dropWhile (· == '/'))

/-- The namespace of all identifiers derived here. -/
def idSpace : List UInt8 :=
  [0x6b, 0x1f, 0x0c, 0x4e, 0x93, 0xa2, 0x4d, 0x7e, 0x8f, 0x15, 0x2c, 0x3b, 0x9a, 0x40, 0xd1, 0xe7]

def fileKey (project path : String) : String := s!"file:{project}:{normalizePath path}"

def chunkKey (project path : String) (index : Nat) : String := s!"chunk:{project}:{normalizePath path}:{index}"

def fileId (project path : String) : String := Digest.Uuid.ofName idSpace (fileKey project path)

def chunkId (project path : String) (index : Nat) : String := Digest.Uuid.ofName idSpace (chunkKey project path index)

/-- One indexed file. Its hash is that of the content whose records the store holds. -/
structure FileEntry where
  id : String
  project : String
  path : String
  hash : String
  language : String
  size : Nat
  lineCount : Nat
  /-- Milliseconds since the epoch. -/
  modifiedMs : Int
  deriving DecidableEq, Repr

/-- One embedded chunk. -/
structure Record where
  id : String
  project : String
  fileId : String
  path : String
  index : Nat
  content : String
  vector : Vec
  dimensions : Nat
  format : String
  provider : String
  /-- The hash of the whole file when it was embedded. -/
  hash : String
  startLine : Nat
  endLine : Nat
  symbolName : Option String
  symbolType : Option String
  language : String
  deriving DecidableEq, Repr

def Record.signature (r : Record) : Signature := ⟨r.provider, r.dimensions, r.format⟩

/-- The cosine of the angle between two vectors; zero when their lengths differ or one of them has no
direction. -/
def cosine (a b : Vec) : Single :=
  if a.size ≠ b.size ∨ a.isEmpty then .zero
  else
    let dot := (a.zip b).foldl (fun s p => s + p.1 * p.2) Single.zero.neg
    let na := norm a
    let nb := norm b
    if na.value == 0 || nb.value == 0 then .zero else dot / (na * nb)

/-- Counts each signature among the records, here in order of first appearance. -/
def tally (records : List Record) : List (Signature × Nat) :=
  records.foldl (fun counts r =>
    if counts.any (·.1 == r.signature) then
      counts.map fun (s, n) => if s == r.signature then (s, n + 1) else (s, n)
    else counts ++ [(r.signature, 1)]) []

/-- Whether `b` takes precedence over `a`: it counts more, or as much with a provider that does not come later. -/
def outranks (b a : Signature × Nat) : Bool :=
  a.2 < b.2 || (a.2 == b.2 && decide (b.1.provider ≤ a.1.provider))

/-- The signature that most records carry; of equally many the one whose provider comes first. -/
def majoritySignature (counts : List (Signature × Nat)) : Option Signature :=
  (counts.foldl (fun best c =>
    match best with
    | none => some c
    | some b => if outranks c b then some c else some b) none).map (·.1)

/-- How the embeddings of a project relate to the model in use. -/
structure ModelChange where
  /-- Some record was made with another model; the project should be embedded anew. -/
  changed : Bool
  /-- The signature of most records, if there are any. -/
  previous : Option Signature
  deriving DecidableEq, Repr

/-- More than one model is a change, and so is another one than the current. -/
def modelChange (counts : List (Signature × Nat)) (current : Signature) : ModelChange :=
  ⟨decide (1 < counts.length) || counts.any (·.1 != current), majoritySignature counts⟩

structure ProjectStats where
  chunks : Nat
  files : Nat
  /-- When the project was last written to, if that is known. -/
  lastUpdated : Option Nat
  deriving DecidableEq, Repr

/-- Whether a time of last update is known. -/
def ProjectStats.updated (s : ProjectStats) : Bool := s.lastUpdated.isSome

structure Scored where
  record : Record
  score : Single
  deriving DecidableEq, Repr

/-- Why a store refuses. -/
inductive StoreError where
  | sqlite
  | integerRange
  | dimensionUnsupported (requested limit : Nat)
  | corrupt (id reason : String)
  | io (text : String)
  | other (text : String)
  deriving DecidableEq, Repr

def StoreError.message : StoreError → String
  | sqlite => "database error"
  | integerRange => "integer conversion: out of range integral type conversion attempted"
  | dimensionUnsupported requested limit => s!"store cannot hold {requested}-dimensional vectors (limit {limit})"
  | corrupt id reason => s!"corrupt record {id}: {reason}"
  | io text => s!"I/O error: {text}"
  | other text => text

end CodeIndex
