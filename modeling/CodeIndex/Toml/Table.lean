import CodeIndex.Toml.Reader

/-!
A text of TOML as one table. No name is given twice: a header may name a table once, unless the table came about
only on the way to another, and one array grows with each of its headers.
-/

namespace CodeIndex.Toml

def addEntries (members : Members) : List (Key × Toml) → Option Members
  | [] => some members
  | (key, v) :: rest => (addEntry members key v).bind (addEntries · rest)

/-- Puts a section's table in its place. -/
def addSection (root : Members) (s : Section) : Option Members :=
  match s.header with
  | none => addEntries root s.entries
  | some (.table key) =>
    descend false (fun _ ms => do
      let name ← key.getLast?
      let old ← match lookup name ms with
        | none => some []
        | some (table .implied old) => some old
        | some _ => none
      let new ← addEntries old s.entries
      return put name (table .header new) ms) .header root key.dropLast
  | some (.item key) =>
    descend false (fun _ ms => do
      let name ← key.getLast?
      let old ← match lookup name ms with
        | none => some []
        | some (array true old) => some old
        | some _ => none
      let new ← addEntries [] s.entries
      return put name (array true (old ++ [table .header new])) ms) .header root key.dropLast

def addSections (root : Members) : List Section → Option Members
  | [] => some root
  | s :: rest => (addSection root s).bind (addSections · rest)

/-- The members of the table that a text writes; a mark of byte order may stand at its front. -/
def parse? (text : String) : Option Members :=
  let cs := match text.toList with
    | '\ufeff' :: cs => cs
    | cs => cs
  (sections? (cs.length + 1) ⟨none, []⟩ cs).bind (addSections [])

end CodeIndex.Toml
