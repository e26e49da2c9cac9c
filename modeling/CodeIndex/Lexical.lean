import CodeIndex.Chunk.Basic
import CodeIndex.Number.Single
import CodeIndex.Store.Record
import CodeIndex.Text.Blank
import CodeIndex.Text.Case
import CodeIndex.Text.Search

/-!
Keyword search over the text of chunks and symbols. Each project's entries are kept path by path, in the order in
which the paths were first indexed, and that order decides between equal scores.
-/

namespace CodeIndex.Lexical

open Number Text

inductive EntrySource where
  | chunk
  | symbol
  deriving DecidableEq, Repr

structure Entry where
  path : String
  content : String
  startLine : Nat
  endLine : Nat
  symbolName : Option String
  symbolKind : Option String
  source : EntrySource
  deriving DecidableEq, Repr

def Entry.ofChunk (path : String) (c : Chunk) : Entry :=
  ⟨path, c.content, c.startLine, c.endLine, c.symbolName, c.symbolType, .chunk⟩

def Entry.ofSymbol (path : String) (s : Symbol) : Entry :=
  ⟨path, s.source, s.startLine, s.endLine, some s.name, some s.kind, .symbol⟩

def Entry.ofRecord (r : Record) : Entry :=
  ⟨r.path, r.content, r.startLine, r.endLine, r.symbolName, r.symbolType, .chunk⟩

structure Hit where
  entry : Entry
  score : Single
  deriving DecidableEq, Repr

structure Stats where
  files : Nat
  chunks : Nat
  symbols : Nat
  deriving DecidableEq, Repr

/-- Gives a key its value, in place of the one that it has. -/
def assign (xs : List (String × α)) (key : String) (v : α) : List (String × α) :=
  if xs.any (·.1 == key) then xs.map fun x => if x.1 == key then (x.1, v) else x else xs ++ [(key, v)]

/-- Changing the value of a key, or giving it a first one, adds the key behind the others if it is new. -/
theorem keys_amend (xs : List (String × α)) (key : String) (g : α → α) (v : α) :
    (if xs.any (·.1 == key) then xs.map fun x => if x.1 == key then (x.1, g x.2) else x
      else xs ++ [(key, v)]).map (·.1) = if xs.any (·.1 == key) then xs.map (·.1) else xs.map (·.1) ++ [key] := by
  split
  · rw [List.map_map]
    refine List.map_congr_left fun x _ => ?_
    simp only [Function.comp]
    split <;> rfl
  · rw [List.map_append, List.map_singleton]

theorem keys_assign (xs : List (String × α)) (key : String) (v : α) :
    (assign xs key v).map (·.1) = if xs.any (·.1 == key) then xs.map (·.1) else xs.map (·.1) ++ [key] :=
  keys_amend xs key (fun _ => v) v

/-- The entries of one project: those of each path, and apart from them the order in which the paths were first
indexed. Both are about the same paths. -/
@[ext]
structure Shelf where
  order : List String
  files : List (String × List Entry)
  nodup : order.Nodup
  known : order.Perm (files.map (·.1))

namespace Shelf

def empty : Shelf := ⟨[], [], .nil, .nil⟩

theorem mem_order (s : Shelf) (path : String) : path ∈ s.order ↔ s.files.any (·.1 == path) = true := by
  rw [s.known.mem_iff, List.mem_map, List.any_eq_true]
  exact exists_congr fun f => and_congr_right fun _ => beq_iff_eq.symm

/-- Gives a path its entries; a path that is there already keeps its place. -/
def replace (s : Shelf) (path : String) (entries : List Entry) : Shelf where
  order := if s.files.any (·.1 == path) then s.order else s.order ++ [path]
  files := assign s.files path entries
  nodup := by
    split
    · exact s.nodup
    · rename_i h
      refine List.nodup_append.2 ⟨s.nodup, List.pairwise_singleton .., fun p hp q hq hpq => h ?_⟩
      rw [← s.mem_order, ← List.mem_singleton.1 hq, ← hpq]
      exact hp
  known := by
    rw [keys_assign]
    split
    · exact s.known
    · exact s.known.append_right [path]

/-- Forgets a path. -/
def remove (s : Shelf) (path : String) : Shelf :=
  if s.files.any (·.1 == path) then
    { order := s.order.filter (· != path)
      files := s.files.filter (·.1 != path)
      nodup := s.nodup.filter _
      known := by
        have hkeys := List.filter_map (p := (· != path)) (f := Prod.fst) (l := s.files)
        exact hkeys ▸ s.known.filter _ }
  else s

/-- All entries, path by path. -/
def entries (s : Shelf) : List Entry := (s.order.filterMap fun path => s.files.lookup path).flatten

end Shelf

/-- The entries of all projects. -/
structure Index where
  projects : List (String × Shelf) := []

namespace Index

def shelf (ix : Index) (project : String) : Shelf := ((ix.projects.find? (·.1 == project)).map (·.2)).getD .empty

def setShelf (ix : Index) (project : String) (s : Shelf) : Index := ⟨assign ix.projects project s⟩

/-- Replaces what is indexed for a path; chunks without content are left out. -/
def indexFile (ix : Index) (project path : String) (chunks : List Chunk) (symbols : List Symbol) : Index :=
  let entries := (chunks.filter (!·.content.isEmpty)).map (Entry.ofChunk path) ++ symbols.map (Entry.ofSymbol path)
  ix.setShelf project ((ix.shelf project).replace path entries)

/-- Records gathered by path, paths in the order in which they first occur. -/
def gather (records : List Record) : List (String × List Entry) :=
  records.foldl (fun files r =>
    if files.any (·.1 == r.path) then
      files.map fun f => if f.1 == r.path then (f.1, f.2 ++ [Entry.ofRecord r]) else f
    else files ++ [(r.path, [Entry.ofRecord r])]) []

/-- Replaces the entries of every path among the records. -/
def indexRecords (ix : Index) (project : String) (records : List Record) : Index :=
  ix.setShelf project ((gather records).foldl (fun s f => s.replace f.1 f.2) (ix.shelf project))

def containsFile (ix : Index) (project path : String) : Bool := (ix.shelf project).files.any (·.1 == path)

def removeFile (ix : Index) (project path : String) : Index := ix.setShelf project ((ix.shelf project).remove path)

def clearProject (ix : Index) (project : String) : Index := ⟨ix.projects.filter (·.1 != project)⟩

def files (ix : Index) (project : String) : List String := (ix.shelf project).order

def entries (ix : Index) (project : String) : List Entry := (ix.shelf project).entries

def stats (ix : Index) (project : String) : Stats :=
  let entries := ix.entries project
  ⟨(ix.shelf project).files.length, entries.countP (·.source == .chunk), entries.countP (·.source == .symbol)⟩

end Index

/-- A query in lower case, and its words that are long enough to look for. -/
structure Query where
  phrase : List Char
  terms : List (List Char)

/-- Shorter words are not looked for. -/
def minTermLength : Nat := 3

def Query.ofText (text : String) : Query :=
  let phrase := lowerChars (strip isBlank text.toList)
  ⟨phrase, (fields isBlank phrase).filter (minTermLength ≤ ·.length)⟩

/-- The weight of each occurrence of a term. -/
def termWeight : Single := .ofFloat 0.3

/-- A long text loses at most this much. -/
def maxPenalty : Single := .half

/-- What a symbol's own entry is given on top. -/
def symbolBoost : Single := .ofFloat 0.2

/-- What the name adds: a half for every term that stands in it, and one for a term that it equals. -/
def nameScore (q : Query) (name : List Char) (score : Single) : Single :=
  q.terms.foldl (fun score t =>
    let score := if occurs t name then score + .half else score
    if name = t then score + .one else score) score

/-- How well an entry answers the query; nothing if nothing matched. Long texts lose up to a half. -/
def score? (q : Query) (e : Entry) : Option Single :=
  let content := lowerChars e.content.toList
  let score := if occurs q.phrase content then Single.zero + .one else .zero
  let score := q.terms.foldl (fun score t => score + termWeight * .ofNat (count t content)) score
  let score := match e.symbolName with
    | some name => nameScore q (lowerChars name.toList) score
    | none => score
  if score.le .zero then none
  else
    let penalty := (Single.ofNat e.content.length / .ofNat 1000).min maxPenalty
    let score := (score - penalty).max .zero
    some (if e.source = .symbol then score + symbolBoost else score)

/-- The best `k` entries of a project for a query; equal scores stay in the order of the index. -/
def search (ix : Index) (project text : String) (k : Nat) : List Hit :=
  let q := Query.ofText text
  if q.terms.isEmpty || k == 0 then []
  else
    let hits := (ix.entries project).filterMap fun e => (score? q e).map (⟨e, ·⟩)
    (hits.mergeSort fun a b => b.score.totalLe a.score).take k

end CodeIndex.Lexical
