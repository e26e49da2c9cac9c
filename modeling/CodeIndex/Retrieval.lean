import CodeIndex.Lexical
import CodeIndex.Number.Fixed
import CodeIndex.Store.Memory

/-!
Answers to a query: a ranking by meaning and a ranking by words, merged by the ranks they give, and written out
as a list of headers or as a block of context.
-/

namespace CodeIndex

open Number

structure RetrievalConfig where
  /-- How many results each ranking contributes. -/
  candidates : Nat
  /-- The least cosine that counts. -/
  scoreThreshold : Single
  rrfK : Single
  semanticWeight : Single
  lexicalWeight : Single
  deriving DecidableEq, Repr

inductive Strategy where
  | hybrid
  | lexicalOnly
  deriving DecidableEq, Repr

structure RetrievedChunk where
  path : String
  startLine : Nat
  endLine : Nat
  symbolName : Option String
  content : String
  score : Single
  semantic : Bool
  lexical : Bool
  deriving DecidableEq, Repr

namespace RetrievedChunk

def ofHit (h : Lexical.Hit) : RetrievedChunk :=
  ⟨h.entry.path, h.entry.startLine, h.entry.endLine, h.entry.symbolName, h.entry.content, h.score, false, true⟩

def ofScored (s : Scored) : RetrievedChunk :=
  ⟨s.record.path, s.record.startLine, s.record.endLine, s.record.symbolName, s.record.content, s.score, true, false⟩

/-- The place of a chunk in one line. -/
def header (c : RetrievedChunk) : String :=
  match c.symbolName with
  | some name => s!"{c.path} :: {name} (lines {c.startLine}-{c.endLine})"
  | none => s!"{c.path} (lines {c.startLine}-{c.endLine})"

def samePlace (a b : RetrievedChunk) : Bool :=
  a.path == b.path && a.startLine == b.startLine && a.endLine == b.endLine

/-- Takes in a further occurrence of the same place. -/
def absorb (a : RetrievedChunk) (contribution : Single) (b : RetrievedChunk) : RetrievedChunk :=
  { a with
    score := a.score + contribution
    semantic := a.semantic || b.semantic
    lexical := a.lexical || b.lexical
    symbolName := a.symbolName.or b.symbolName }

end RetrievedChunk

/-- What a rank is worth, counted from zero. -/
def contribution (config : RetrievalConfig) (weight : Single) (rank : Nat) : Single :=
  weight / (config.rrfK + .ofNat rank + .one)

/-- Adds one ranked result to those merged so far. -/
def mergeRanked (merged : List RetrievedChunk) (c : RetrievedChunk) (worth : Single) : List RetrievedChunk :=
  if merged.any (·.samePlace c) then merged.map fun m => if m.samePlace c then m.absorb worth c else m
  else merged ++ [{ c with score := worth }]

/-- Merges two rankings, best first; equal scores stay in the order in which they were first seen. -/
def fuse (config : RetrievalConfig) (semantic lexical : List RetrievedChunk) : List RetrievedChunk :=
  let ranked :=
    (semantic.zipIdx.map fun (c, rank) => (c, contribution config config.semanticWeight rank)) ++
      lexical.zipIdx.map fun (c, rank) => (c, contribution config config.lexicalWeight rank)
  (ranked.foldl (fun merged r => mergeRanked merged r.1 r.2) []).mergeSort fun a b => b.score.totalLe a.score

structure Retrieved where
  chunks : List RetrievedChunk
  strategy : Strategy
  deriving DecidableEq, Repr

/-- One chunk as an element of the context block. -/
def contextElement (c : RetrievedChunk) : String :=
  let name := match c.symbolName with
    | some name => " name=\"" ++ name ++ "\""
    | none => ""
  "  <chunk file=\"" ++ c.path ++ "\" lines=\"" ++ toString c.startLine ++ "-" ++ toString c.endLine ++ "\"" ++ name ++
    " score=\"" ++ c.score.fixed 3 ++ "\">\n" ++ c.content ++ "\n  </chunk>\n"

/-- Chunks as a block of context for a prompt; no chunks give no block. -/
def formatContext (chunks : List RetrievedChunk) : String :=
  if chunks.isEmpty then "" else "<code_context>\n" ++ String.join (chunks.map contextElement) ++ "</code_context>"

end CodeIndex
