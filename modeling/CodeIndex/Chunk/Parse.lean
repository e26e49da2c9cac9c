import CodeIndex.Chunk.Reference
import CodeIndex.Chunk.Window
import CodeIndex.Text.Utf8

/-!
From the bytes of a file to its outline. Content that looks like no program text, or that no grammar reads, is
cut into line windows; this never fails, and every file has at least one chunk.
-/

namespace CodeIndex.Chunk

open Syntax Text

/-- Longer texts are not given to a grammar. -/
def maxParseBytes : Nat := 1024 * 1024

/-- Opening and closing braces may differ by this much. -/
def maxBraceDelta : Nat := 100

/-- Control characters that have no place in a text; blanks and the delete character are let pass. -/
def isStrayControl (c : Char) : Bool :=
  c.toNat < 32 && c != '\t' && c != '\n' && c != '\r' && c != '\x0c'

/-- How far the counts of opening and closing braces lie apart. -/
def braceDelta (cs : List Char) : Nat :=
  let opens := cs.count '\x7b'
  let closes := cs.count '\x7d'
  max opens closes - min opens closes

/-- Why a text that is not blank is kept from the grammar, if it is. -/
def guard? (content : String) : Option Fallback :=
  let cs := content.toList
  if cs.contains '\x00' then some .nullBytes
  else if cs.any isStrayControl then some .controlCharacters
  else if maxParseBytes < content.utf8ByteSize then some (.tooLarge content.utf8ByteSize)
  else if maxBraceDelta < braceDelta cs then some (.unbalancedBraces (braceDelta cs))
  else none

/-- The outline along a syntax tree, large declarations and the lines between them as chunks. -/
def ofTree (language : Language) (content : String) (root : Node) : Outline :=
  let src := Source.ofString content
  let lines := (lines content).toArray
  let lineCount := max lines.size 1
  let survey : Survey := ⟨src, language, lineCount⟩
  let (symbols, regions) := survey.declarations root
  let regions := regions.mergeSort fun a b => decide (a.startLine ≤ b.startLine)
  { chunks := render lines (planSpans lines regions lineCount)
    symbols
    xrefs := references src language root }

/-- The outline along the tree that the language's grammar builds, if it builds one. -/
def structural (language : Language) (content : String) (tree : Option Node) : Except ParseError Outline :=
  if !language.hasGrammar then .error (.unsupportedLanguage language)
  else match tree with
    | none => .error .noTree
    | some root => if root.isError then .error .errorRoot else .ok (ofTree language content root)

def fallBack (content : String) (reason : Fallback) : Outline :=
  { chunks := lineWindows fallbackWindow content, fallback := some reason }

/-- The outline of a text; `tree` is what the language's grammar makes of it. -/
def parse (language : Language) (content : String) (tree : Option Node) : Outline :=
  if content.isEmpty then { chunks := [sentinel], fallback := some .empty }
  else if isBlankText content then { chunks := [sentinel], fallback := some .whitespaceOnly }
  else match guard? content with
    | some reason => fallBack content reason
    | none =>
      if !language.hasGrammar then fallBack content .noGrammar
      else match structural language content tree with
        | .error e => fallBack content (.parseFailed e.message)
        | .ok outline =>
          if outline.chunks.isEmpty then fallBack content (.parseFailed "no chunks produced") else outline

/-- The outline of a file; bytes that are not UTF-8 are read leniently and cut into line windows. -/
def parseBytes (language : Language) (bytes : ByteArray) (tree : String → Option Node) : Outline :=
  match decodeUtf8? bytes with
  | some content => parse language content (tree content)
  | none => fallBack (decodeLossy bytes) .notUtf8

end CodeIndex.Chunk
