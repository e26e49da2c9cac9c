import CodeIndex.Chunk.Basic
import CodeIndex.Text.Blank

/-!
Laying regions over the lines of a file. The spans that come out follow one another without gap or overlap:
what lies between two regions is a span of its own, or belongs to a neighbour when it is blank.
-/

namespace CodeIndex.Chunk

/-- The lines of a large declaration. -/
structure Region where
  startLine : Nat
  endLine : Nat
  name : String
  kind : String
  deriving DecidableEq, Repr

structure Span where
  startLine : Nat
  endLine : Nat
  name : Option String := none
  kind : Option String := none
  deriving DecidableEq, Repr

/-- Whether lines `start` to `stop` hold nothing but white space. -/
def blankBetween (lines : Array String) (start stop : Nat) : Bool :=
  (lines.extract (start - 1) stop).all Text.isBlankText

/-- A layout under way: the spans so far, the last one first, the first line not laid out yet, and where blank
lines began that no span has taken yet. -/
structure Layout where
  spans : List Span := []
  nextLine : Nat := 1
  pendingBlank : Option Nat := none

namespace Layout

/-- Adds a span; blank lines that were waiting become its first lines. -/
def push (l : Layout) (span : Span) : Layout :=
  { l with
    spans := { span with startLine := l.pendingBlank.getD span.startLine } :: l.spans
    pendingBlank := none }

/-- Gives the last span another end. -/
def stretch (l : Layout) (endLine : Nat → Nat) : Layout :=
  match l.spans with
  | [] => l
  | last :: rest => { l with spans := { last with endLine := endLine last.endLine } :: rest }

/-- Lays out the lines `start` to `stop`, which no region claims. -/
def fill (lines : Array String) (l : Layout) (start stop : Nat) : Layout :=
  if stop < start then l
  else if blankBetween lines start stop then
    if l.spans.isEmpty then { l with pendingBlank := l.pendingBlank.or (some start) }
    else l.stretch fun _ => stop
  else l.push { startLine := start, endLine := stop }

/-- Lays out one region; lines that an earlier one claimed stay with that one. -/
def place (lines : Array String) (l : Layout) (r : Region) : Layout :=
  let start := max r.startLine l.nextLine
  if r.endLine < start then
    { l.stretch (max · r.endLine) with nextLine := max l.nextLine (r.endLine + 1) }
  else
    let l := (l.fill lines l.nextLine (start - 1)).push ⟨start, r.endLine, some r.name, some r.kind⟩
    { l with nextLine := r.endLine + 1 }

/-- Lays out what is left after the last region. -/
def finish (lines : Array String) (l : Layout) (lineCount : Nat) : List Span :=
  let l := l.fill lines l.nextLine lineCount
  match l.pendingBlank with
  | some start => (({ startLine := start, endLine := lineCount } : Span) :: l.spans).reverse
  | none => l.spans.reverse

end Layout

/-- The spans of a file with `lineCount` lines, given its regions in order of their first lines. -/
def planSpans (lines : Array String) (regions : List Region) (lineCount : Nat) : List Span :=
  (regions.foldl (Layout.place lines) {}).finish lines lineCount

def render (lines : Array String) (spans : List Span) : List Chunk :=
  spans.zipIdx.map fun (s, i) => ofLines lines s.startLine s.endLine s.name s.kind i

end CodeIndex.Chunk
