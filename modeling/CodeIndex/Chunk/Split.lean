import CodeIndex.Chunk.Window

/-!
Getting chunks ready to be embedded: those that are too long are split into overlapping windows of lines, and
each is given its place and language as a heading.
-/

namespace CodeIndex.Chunk

/-- Lines of a window such that it holds about `maxChars` characters: more than the overlap, and no more than the
fallback window unless the overlap forces it. -/
def splitWindow (maxChars overlap chars lineCount : Nat) : Nat :=
  let average := max (chars / lineCount) 1
  max (overlap + 1) (min (maxChars / average) (max fallbackWindow (overlap + 1)))

/-- How many windows it takes to reach the last line, each starting `window - overlap` lines after the one before. -/
def windowCount (window overlap lineCount : Nat) : Nat :=
  (lineCount - window + (window - overlap) - 1) / (window - overlap) + 1

/-- The lines of a chunk from `offset` on, `window` of them or as many as are left. -/
def piece (c : Chunk) (lines : Array String) (offset window : Nat) : Chunk :=
  let stop := min (offset + window) lines.size
  let content := Text.joinLines (lines.extract offset stop).toList
  { c with
    content, tokens := estimateTokens content, startLine := c.startLine + offset, endLine := c.startLine + stop - 1 }

/-- The chunk itself, or its windows if it is longer than `maxChars` and has lines to be split between. -/
def pieces (maxChars overlap : Nat) (c : Chunk) : List Chunk :=
  let chars := c.content.length
  let lines := (Text.lines c.content).toArray
  if chars ≤ maxChars ∨ lines.size < 2 then [c]
  else
    let window := splitWindow maxChars overlap chars lines.size
    (List.range (windowCount window overlap lines.size)).map fun i => c.piece lines (i * (window - overlap)) window

/-- Splits what is too long and numbers all chunks anew. -/
def splitOversized (chunks : List Chunk) (maxChars overlap : Nat) : List Chunk :=
  (chunks.flatMap (pieces maxChars overlap)).zipIdx.map fun (c, index) => { c with index }

/-- The text that is embedded for a chunk: its file, its symbol and its language stand above its content. -/
def contextualize (path language : String) (c : Chunk) : String :=
  let symbol := match c.symbolName, c.symbolType with
    | some name, some kind => s!"# Symbol: {name} ({kind})\n"
    | some name, none => s!"# Symbol: {name}\n"
    | none, _ => ""
  s!"# {path}\n" ++ symbol ++ s!"# Language: {language}\n" ++ c.content

end CodeIndex.Chunk
