import CodeIndex.Json.Reader
import CodeIndex.Json.Record
import CodeIndex.Json.Writer
import CodeIndex.Store.Table
import CodeIndex.Text.Utf8

/-!
The tables of a store as text, one JSON value for all of them. The bytes of vectors are written in hexadecimal, so
that they come back bit for bit; the limit is a setting and no part of the tables.
-/

namespace CodeIndex

namespace Json

def text? : Json → Option String
  | str s => some s
  | _ => none

/-- A text that may be missing. -/
def maybeText? : Json → Option (Option String)
  | str s => some (some s)
  | null => some none
  | _ => none

def nat? : Json → Option Nat
  | num d => d.toNat?
  | _ => none

def int? : Json → Option Int
  | num d => if d.whole then some (if d.negative then -d.digits else d.digits) else none
  | _ => none

def ofInt (n : Int) : Json := num ⟨n < 0, n.natAbs, 0, true⟩

end Json

namespace TableStore

def hexOf (bytes : List UInt8) : String :=
  .ofList (bytes.flatMap fun b => [Json.hexDigit (b.toNat / 16), Json.hexDigit (b.toNat % 16)])

def bytesOfHex? (out : List UInt8) : List Char → Option (List UInt8)
  | [] => some out.reverse
  | a :: b :: rest =>
    match Json.hexValue? a, Json.hexValue? b with
    | some x, some y => bytesOfHex? ((16 * x + y).toUInt8 :: out) rest
    | _, _ => none
  | [_] => none

/-- An entry, and when its row was last written. -/
def fileToJson (f : FileEntry × Nat) : Json :=
  .arr [.str f.1.id, .str f.1.project, .str f.1.path, .str f.1.hash, .str f.1.language, .ofNat f.1.size,
    .ofNat f.1.lineCount, .ofInt f.1.modifiedMs, .ofNat f.2]

def fileOfJson? : Json → Option (FileEntry × Nat)
  | .arr [id, project, path, hash, language, size, lineCount, modifiedMs, updatedAt] => do
    let f : FileEntry := ⟨← id.text?, ← project.text?, ← path.text?, ← hash.text?, ← language.text?, ← size.nat?,
      ← lineCount.nat?, ← modifiedMs.int?⟩
    return (f, ← updatedAt.nat?)
  | _ => none

def rowToJson (row : Row) : Json :=
  let r := row.record
  .arr [.str r.id, .str r.project, .str r.fileId, .str r.path, .ofNat r.index, .str r.content, .str (hexOf row.bytes),
    .ofNat r.dimensions, .str r.format, .str r.provider, .str r.hash, .ofNat r.startLine, .ofNat r.endLine,
    .ofOption .str r.symbolName, .ofOption .str r.symbolType, .str r.language, .ofNat row.createdAt]

def rowOfJson? : Json → Option Row
  | .arr [id, project, fileId, path, index, content, bytes, dimensions, format, provider, hash, startLine, endLine,
      symbolName, symbolType, language, createdAt] => do
    let r : Record := {
      id := ← id.text?, project := ← project.text?, fileId := ← fileId.text?, path := ← path.text?
      index := ← index.nat?, content := ← content.text?, vector := #[], dimensions := ← dimensions.nat?
      format := ← format.text?, provider := ← provider.text?, hash := ← hash.text?, startLine := ← startLine.nat?
      endLine := ← endLine.nat?, symbolName := ← symbolName.maybeText?, symbolType := ← symbolType.maybeText?
      language := ← language.text? }
    return ⟨r, ← bytesOfHex? [] (← bytes.text?).toList, ← createdAt.nat?⟩
  | _ => none

/-- The tables as text. -/
def save (s : TableStore) : String :=
  let files := s.files.map fun f => (f, s.writtenAt f.id)
  (Json.arr [.arr (files.map fileToJson), .arr (s.embeddings.map rowToJson), .ofNat s.widest]).render

/-- The tables that a file holds; one that is empty holds empty tables. -/
def load? (content : ByteArray) : Option TableStore := do
  if content.isEmpty then return {}
  match ← Json.parse? (← Text.decodeUtf8? content) with
  | .arr [.arr files, .arr rows, widest] =>
    let files ← files.mapM fileOfJson?
    return { files := files.map (·.1), updatedAt := files.map fun f => (f.1.id, f.2)
             embeddings := ← rows.mapM rowOfJson?, widest := ← widest.nat? }
  | _ => none

end TableStore

end CodeIndex
