import CodeIndex.Chunk.Basic
import CodeIndex.Text.Blank

/-!
Cutting a text into windows of a fixed number of lines, which needs no grammar.
-/

namespace CodeIndex.Chunk

open Text

/-- Lines of a window when a file has no other structure. -/
def fallbackWindow : Nat := 50

/-- Consecutive windows of `window` lines, at least one; a blank text gives the chunk of an empty file. -/
def lineWindows (window : Nat) (content : String) : List Chunk :=
  let window := max window 1
  let lines := (lines content).toArray
  if lines.all isBlankText then [sentinel]
  else (List.range ((lines.size + window - 1) / window)).map fun i =>
    ofLines lines (i * window + 1) (min (i * window + window) lines.size) none none i

end CodeIndex.Chunk
