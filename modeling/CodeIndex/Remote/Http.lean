import CodeIndex.Json.Writer

/-!
Calls over HTTP as values: what is sent, and what comes back if anything does.
-/

namespace CodeIndex.Remote

structure Request where
  url : String
  /-- The credentials, as they stand in the header. -/
  authorization : Option String
  body : Json

structure Response where
  status : Nat
  headers : List (String × String)
  body : ByteArray

/-- What a request comes to; nothing if no connection can be made. -/
abbrev Transport := Request → Option Response

def Response.isSuccess (r : Response) : Bool := 200 ≤ r.status && r.status ≤ 299

/-- The first header of a name, whose case does not matter. -/
def Response.header? (r : Response) (name : String) : Option String :=
  (r.headers.find? fun h => h.1.map Char.toLower == name).map (·.2)

/-- Where nothing can be reached. -/
def unreachable : Transport := fun _ => none

end CodeIndex.Remote
