import CodeIndex.Chunk.Layout
import CodeIndex.Syntax.Tree
import CodeIndex.Text.Search

/-!
The declarations of a syntax tree. Every node of a chunkable kind is a symbol, named by the grammar's fields or
by the first identifier below it and documented by its docstring or by the comments just above it. Large ones
are regions as well, unless they lie within a larger one.
-/

namespace CodeIndex.Chunk

open Syntax Text

/-- A node is large beyond this many lines … -/
def largeLines : Nat := 10

/-- … or beyond this many characters. -/
def largeChars : Nat := 100

/-- The name of a declaration that has none. -/
def anonymous : String := "<anonymous>"

/-- The node's first and last line; a line feed at its very end does not count as a line begun. -/
def nodeLines (src : Source) (lineCount : Nat) (n : Node) : Nat × Nat :=
  let first := n.startRow src
  let last := n.endRow src
  let last := if src.column n.stop = 0 ∧ first < last then last - 1 else last
  (min (first + 1) lineCount, min (last + 1) lineCount)

def isIdentifierLike (kind : String) : Bool :=
  "identifier".toList.isSuffixOf kind.toList || kind == "name" || kind == "constant"

mutual

/-- The first identifier below a node: among its children, else below them in order. -/
def firstIdentifier? : Node → Option Node
  | .mk _ _ _ _ _ cs =>
    (cs.find? fun c => c.named && isIdentifierLike c.kind).or (firstIdentifierBelow? cs)

def firstIdentifierBelow? : List Node → Option Node
  | [] => none
  | c :: rest => (if c.named then firstIdentifier? c else none).or (firstIdentifierBelow? rest)

end

mutual

/-- The node that names a declaration: its name or its type, else what names the definition it wraps, else the
first identifier below it. -/
def nameNode? : Node → Option Node
  | .mk kind named field start stop cs =>
    let n := Node.mk kind named field start stop cs
    match (n.child? .name).or (n.child? .type) with
    | some name => some name
    | none =>
      match wrappedName? cs with
      | some found => found
      | none => firstIdentifier? n

/-- What names the first child that is a definition; nothing at all if no child is one. -/
def wrappedName? : List Node → Option (Option Node)
  | [] => none
  | c :: rest => if c.field == some .definition then some (nameNode? c) else wrappedName? rest

end

def symbolName? (src : Source) (n : Node) : Option String := (nameNode? n).map (·.text src)

/-- A declaration's documentation, and the line where it begins. -/
structure Doc where
  text : String
  startLine : Nat
  deriving DecidableEq, Repr

def isQuote (c : Char) : Bool := c == '"' || c == '\''

/-- The string literal that opens the body of a definition, without its quotes. -/
def docstring? (src : Source) (n : Node) : Option Doc := do
  let body ← ((n.child? .definition).getD n).child? .body
  let first ← body.firstNamed?
  if first.kind != "expression_statement" then none
  else
    let string ← first.firstNamed?
    if string.kind != "string" then none
    else
      let text := trim (.ofList (strip isQuote (string.text src).toList))
      if text.isEmpty then none else some ⟨text, n.startRow src + 1⟩

def commentMarks : List String := ["///", "//!", "//", "/**", "/*", "#"]

/-- A line of a comment without its marks. -/
def cleanCommentLine (line : String) : String :=
  let line := trim line
  let line := (commentMarks.findSome? (dropPrefix? · line)).getD line
  let line := (dropSuffix? "*/" line).getD line
  trim (.ofList ((trim line).toList.dropWhile (· == '*')))

def isComment (n : Node) : Bool := occurs "comment".toList n.kind.toList

/-- Comments written to document what follows them. -/
def isDocComment (src : Source) (n : Node) : Bool :=
  let t := (n.text src).toList
  "///".toList.isPrefixOf t || "/**".toList.isPrefixOf t || "//!".toList.isPrefixOf t

/-- The comments that lead up to row `row`, the uppermost first. `before` holds the siblings before it, the
nearest first; each has to end on the row of the next one or on the row above, and attributes are passed over. -/
def commentsAbove (src : Source) (row : Nat) (found : List Node) : List Node → List Node
  | [] => found
  | p :: before =>
    let last := p.endRow src
    if last ≤ row ∧ row ≤ last + 1 then
      if isComment p then commentsAbove src (p.startRow src) (p :: found) before
      else if p.kind == "attribute_item" then commentsAbove src (p.startRow src) found before
      else found
    else found

/-- The text of comments. Where some are meant as documentation, only those count. -/
def commentDoc? (src : Source) (comments : List Node) : Option Doc :=
  match comments with
  | [] => none
  | first :: _ =>
    let kept := if comments.any (isDocComment src) then comments.filter (isDocComment src) else comments
    let text := joinLines (((kept.flatMap fun c => lines (c.text src)).map cleanCommentLine).filter (!·.isEmpty))
    if text.isEmpty then none else some ⟨text, first.startRow src + 1⟩

/-- Where a node stands: its parent and, nearest first, the siblings before it and before its parent. -/
structure Place where
  parent : Node
  beforeParent : List Node
  before : List Node

/-- Comments stand above the declaration, or above the export statement that it is the first child of. -/
def leadingDoc? (src : Source) (language : Language) (place : Place) (n : Node) : Option Doc :=
  if language = .python then docstring? src n
  else if place.parent.kind == "export_statement" && place.before.isEmpty then
    commentDoc? src (commentsAbove src (place.parent.startRow src) [] place.beforeParent)
  else commentDoc? src (commentsAbove src (n.startRow src) [] place.before)

/-- Symbols and regions found so far, the last ones first. -/
structure Findings where
  symbols : List Symbol := []
  regions : List Region := []

/-- What the search for declarations needs to know of the file. -/
structure Survey where
  source : Source
  language : Language
  lineCount : Nat

namespace Survey

def isChunkable (s : Survey) (n : Node) : Bool := s.language.chunkableKinds.contains n.kind

def isLarge (s : Survey) (n : Node) : Bool :=
  let (start, stop) := nodeLines s.source s.lineCount n
  decide (largeLines < stop - start + 1) || decide (largeChars < (n.text s.source).length)

/-- The symbol that a declaration records, its place in the file and its documentation. -/
def symbolOf (s : Survey) (doc : Option Doc) (n : Node) : Symbol :=
  let (start, stop) := nodeLines s.source s.lineCount n
  ⟨(symbolName? s.source n).getD anonymous, n.kind, start, stop, s.language, n.text s.source, doc.map (·.text)⟩

/-- The region of a declaration, from its documentation on. A wrapped definition lends its kind. -/
def regionOf (s : Survey) (doc : Option Doc) (n : Node) : Region :=
  let (start, stop) := nodeLines s.source s.lineCount n
  ⟨(doc.map (min ·.startLine start)).getD start, stop, (symbolName? s.source n).getD anonymous,
    ((n.child? .definition).getD n).kind⟩

/-- Adds one declaration. A decorated definition is no symbol: the definition it wraps is. -/
def record (s : Survey) (place : Place) (inside : Bool) (n : Node) (f : Findings) : Findings :=
  let doc := leadingDoc? s.source s.language place n
  { symbols := if n.kind == "decorated_definition" then f.symbols else s.symbolOf doc n :: f.symbols
    regions := if !inside && s.isLarge n then s.regionOf doc n :: f.regions else f.regions }

mutual

/-- Adds the declarations below a node. `before` are its siblings before it, and `inside` tells whether a
region holds it already. -/
def below (s : Survey) (before : List Node) (inside : Bool) (f : Findings) : Node → Findings
  | .mk kind named field start stop cs =>
    among s (Node.mk kind named field start stop cs) before inside f [] cs

/-- Adds the declarations in and below the children that are left; those passed stand in `passed`. -/
def among (s : Survey) (parent : Node) (beforeParent : List Node) (inside : Bool) (f : Findings)
    (passed : List Node) : List Node → Findings
  | [] => f
  | c :: rest =>
    let f :=
      if !c.named then f
      else if s.isChunkable c then
        below s passed (inside || s.isLarge c) (s.record ⟨parent, beforeParent, passed⟩ inside c f) c
      else below s passed inside f c
    among s parent beforeParent inside f (c :: passed) rest

end

/-- The declarations of a whole tree, in the order in which they begin. -/
def declarations (s : Survey) (root : Node) : List Symbol × List Region :=
  let f := s.below [] false {} root
  (f.symbols.reverse, f.regions.reverse)

end Survey

end CodeIndex.Chunk
