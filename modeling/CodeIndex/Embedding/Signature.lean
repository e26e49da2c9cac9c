/-!
The embedding space a vector lives in. Two vectors can be compared only when their signatures are equal.
-/

namespace CodeIndex.Embedding

structure Signature where
  /-- The provider's name and its model, joined by a colon. -/
  provider : String
  dimensions : Nat
  format : String
  deriving DecidableEq, Repr

/-- The one vector format that every provider here answers in. -/
def float32 : String := "float32"

def Signature.render (s : Signature) : String := s!"{s.provider} ({s.dimensions}d, {s.format})"

end CodeIndex.Embedding
