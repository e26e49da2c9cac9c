import CodeIndex.Embedding.Error
import CodeIndex.Embedding.Hashing
import CodeIndex.Embedding.Signature

/-!
Providers of embeddings. What a provider answers to its coming calls is a list of replies; when the list has run
out, every call is answered alike.
-/

namespace CodeIndex.Embedding

inductive Reply where
  /-- Every text hashed into that many components. -/
  | hashed (dims : Nat)
  | vectors (vs : List Vec)
  | fails (e : EmbedError)
  deriving DecidableEq, Repr

def Reply.answer (r : Reply) (texts : List String) : Except EmbedError (List Vec) :=
  match r with
  | hashed dims => .ok (texts.map (hashEmbed · dims))
  | vectors vs => .ok vs
  | fails e => .error e

structure Provider where
  /-- The name under which its health is kept. -/
  name : String
  model : String
  dimensions : Nat
  script : List Reply := []
  /-- The reply to every call after the script. -/
  settled : Reply
  /-- Whether its calls are counted for inspection. -/
  counted : Bool := false
  calls : Nat := 0
  texts : Nat := 0
  deriving DecidableEq, Repr

namespace Provider

def signature (p : Provider) : Signature := ⟨s!"{p.name}:{p.model}", p.dimensions, float32⟩

/-- One call: the provider moves on to its next reply. -/
def call (p : Provider) (texts : List String) : Provider × Except EmbedError (List Vec) :=
  ({ p with script := p.script.drop 1, calls := p.calls + 1, texts := p.texts + texts.length },
    (p.script.headD p.settled).answer texts)

def localName : String := "local"

def localModel : String := "feature-hash-v1"

/-- The provider that hashes features on the spot; it never fails. -/
def hashing (dims : Nat) : Provider :=
  { name := localName, model := localModel, dimensions := max dims 1, settled := .hashed (max dims 1) }

end Provider

end CodeIndex.Embedding
