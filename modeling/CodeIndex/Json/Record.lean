import CodeIndex.Json.Basic
import CodeIndex.Embedding.Hashing

/-!
Taking typed values out of JSON.
-/

namespace CodeIndex.Json

/-- The fields of a record: an object's members, or the items of an array in the order of the names. A name that is
known may not be given twice. -/
def fields? (names : List String) : Json → Option (List (String × Json))
  | obj members =>
    if names.any fun name => 1 < members.countP (·.1 == name) then none else some members
  | arr items => some (names.zip items)
  | _ => none

def items? : Json → Option (List Json)
  | arr items => some items
  | _ => none

def single? : Json → Option Number.Single
  | num d => d.toSingle?
  | _ => none

def vector? (j : Json) : Option Embedding.Vec := do
  let items ← j.items?
  return (← items.mapM single?).toArray

/-- A whole number of 64 bits. -/
def size? : Json → Option Nat
  | num d => d.toNat?.filter (· < Nat.pow 2 64)
  | _ => none

end CodeIndex.Json
