import CodeIndex.Language
import CodeIndex.Text.Lines

/-!
What a source file is cut into: chunks that cover its lines, the symbols it declares, and its references to
other files. Lines are counted from one, and a range of lines holds both its ends.
-/

namespace CodeIndex

/-- One token for every four characters begun. -/
def estimateTokens (text : String) : Nat := (text.length + 3) / 4

structure Chunk where
  content : String
  startLine : Nat
  endLine : Nat
  tokens : Nat
  symbolName : Option String
  symbolType : Option String
  index : Nat
  deriving DecidableEq, Repr

structure Symbol where
  name : String
  /-- The kind of the declaring node, such as `function_item`. -/
  kind : String
  startLine : Nat
  endLine : Nat
  language : Language
  source : String
  doc : Option String
  deriving DecidableEq, Repr

structure Xref where
  role : Xref.Role
  target : String
  line : Nat
  deriving DecidableEq, Repr

/-- Why a file was cut into line windows and not along its syntax tree. -/
inductive Fallback where
  | empty
  | whitespaceOnly
  | notUtf8
  | nullBytes
  | controlCharacters
  | tooLarge (bytes : Nat)
  | unbalancedBraces (delta : Nat)
  | noGrammar
  | parseFailed (message : String)
  deriving DecidableEq, Repr

def Fallback.message : Fallback → String
  | empty => "empty content"
  | whitespaceOnly => "whitespace-only content"
  | notUtf8 => "content is not valid UTF-8"
  | nullBytes => "content contains null bytes"
  | controlCharacters => "content contains control characters"
  | tooLarge bytes => s!"content too large ({bytes} bytes)"
  | unbalancedBraces delta => s!"brace balance off by {delta}"
  | noGrammar => "no grammar for language"
  | parseFailed m => s!"parse failed: {m}"

/-- Why a text cannot be cut along a syntax tree. -/
inductive ParseError where
  | unsupportedLanguage (language : Language)
  | noTree
  | errorRoot
  deriving DecidableEq, Repr

def ParseError.message : ParseError → String
  | unsupportedLanguage l => s!"unsupported language: {l.id}"
  | noTree => "parse failed: parser returned no tree"
  | errorRoot => "parse failed: syntax tree root is an error node"

/-- All that is read off one file. -/
structure Outline where
  chunks : List Chunk
  symbols : List Symbol := []
  xrefs : List Xref := []
  fallback : Option Fallback := none
  deriving DecidableEq, Repr

namespace Chunk

/-- The name that the only chunk of an empty file carries. -/
def emptyName : String := "<empty>"

/-- The chunk of a file without content. -/
def sentinel : Chunk := ⟨"", 1, 1, 0, some emptyName, none, 0⟩

/-- Lines `start` to `stop` of a file as one chunk. -/
def ofLines (lines : Array String) (start stop : Nat) (name kind : Option String) (index : Nat) : Chunk :=
  let content := Text.joinLines (lines.extract (start - 1) stop).toList
  ⟨content, start, stop, estimateTokens content, name, kind, index⟩

end Chunk

end CodeIndex
