import CodeIndex.Digest.Blake3
import CodeIndex.Number.Single
import CodeIndex.Text.Blank
import CodeIndex.Text.Case

/-!
Embedding by feature hashing, with no model and no network. Every word of a text, and every part of a
composed identifier, is hashed into one component with a sign of plus or minus one; the vector is then
brought to length one. Equal texts get equal vectors, and texts that share words come close.
-/

namespace CodeIndex.Embedding

open Number Text

abbrev Vec := Array Single

/-- A word is made of letters, numbers and underscores. -/
def isBreak (c : Char) : Bool := !isWordChar c && c != '_'

/-- Cuts a piece without underscores before each capital that follows a small letter or a digit. Both
`current`, the part under way, and `parts` are kept backwards. -/
def splitPiece (lowBefore : Bool) (current : List Char) (parts : List (List Char)) : List Char → List (List Char)
  | [] => if current.isEmpty then parts.reverse else (current.reverse :: parts).reverse
  | c :: rest =>
    let low := isLowerCase c || c.isDigit
    if isUpperCase c && lowBefore && !current.isEmpty then
      splitPiece low [c] (current.reverse :: parts) rest
    else splitPiece low (c :: current) parts rest

/-- The lower-case parts of an identifier written with underscores or inner capitals. -/
def splitIdentifier (word : List Char) : List (List Char) :=
  ((fields (· == '_') word).flatMap (splitPiece false [] [])).map lowerChars

/-- A word stands for itself and, if it is composed, for its parts. -/
def wordTokens (word : List Char) : List (List Char) :=
  let parts := splitIdentifier word
  lowerChars word :: if 1 < parts.length then parts else []

def tokens (text : String) : List String :=
  ((fields isBreak text.toList).flatMap wordTokens).map .ofList

/-- The component a token adds to, and whether it adds minus one. -/
def bucket (dims : Nat) (token : String) : Nat × Bool :=
  let d := Digest.Blake3.digest token.toUTF8
  ((d[0]!.toNat + d[1]!.toNat * Nat.pow 2 32) % dims, d[2]! % 2 == 1)

def addToken (dims : Nat) (v : Vec) (token : String) : Vec :=
  let (i, negative) := bucket dims token
  v.modify i fun x => x + (if negative then Single.one.neg else Single.one)

/-- The sum of a list of numbers from left to right; of none it is negative zero. -/
def sum (xs : List Single) : Single := xs.foldl (· + ·) Single.zero.neg

def norm (v : Vec) : Single := (v.foldl (fun s x => s + x * x) Single.zero.neg).sqrt

/-- Divides by the length, if the vector has one. -/
def normalize (v : Vec) : Vec :=
  let n := norm v
  if Single.zero.lt n then v.map (· / n) else v

/-- The embedding of `text` with `dims` components, at least one. -/
def hashEmbed (text : String) (dims : Nat) : Vec :=
  let dims := max dims 1
  normalize ((tokens text).foldl (addToken dims) (Array.replicate dims Single.zero))

end CodeIndex.Embedding
