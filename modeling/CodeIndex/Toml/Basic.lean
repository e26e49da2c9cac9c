/-!
Values of TOML texts. A table remembers how it came about, since that decides what may be added to it later.
-/

namespace CodeIndex

namespace Toml

/-- How a table came about. -/
inductive Origin where
  /-- A header of its own, or the text as a whole. -/
  | header
  /-- The header of a table below it. -/
  | implied
  /-- A dotted key. -/
  | dotted
  /-- Braces; such a table is complete. -/
  | inline
  deriving DecidableEq, Repr

end Toml

inductive Toml where
  | str (s : String)
  | int (n : Int)
  | float (f : Float)
  | bool (b : Bool)
  /-- A date, a time or both; only its form is looked at. -/
  | datetime (text : String)
  /-- An array in brackets, or the tables under one repeated header. -/
  | array (ofTables : Bool) (items : List Toml)
  | table (origin : Toml.Origin) (members : List (String × Toml))

namespace Toml

instance : Inhabited Toml := ⟨bool false⟩

abbrev Members := List (String × Toml)

def lookup (name : String) (members : Members) : Option Toml := (members.find? (·.1 == name)).map (·.2)

/-- Gives a name its value, in its old place or at the end. -/
def put (name : String) (v : Toml) (members : Members) : Members :=
  if members.any (·.1 == name) then members.map fun m => if m.1 == name then (name, v) else m
  else members ++ [(name, v)]

end Toml

end CodeIndex
