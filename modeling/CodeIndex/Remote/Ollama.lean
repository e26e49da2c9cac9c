import CodeIndex.Embedding.Provider
import CodeIndex.Json.Reader
import CodeIndex.Json.Record
import CodeIndex.Number.Decimal
import CodeIndex.Remote.Http
import CodeIndex.Remote.Url
import CodeIndex.Text.Case
import CodeIndex.Text.Search
import CodeIndex.Text.Utf8

/-!
Embeddings from an Ollama daemon. Of a failure only its text is known, and words in it tell whether another try is
worth while.
-/

open CodeIndex.Embedding

namespace CodeIndex.Remote

structure Ollama where
  /-- The address before its port. -/
  host : String
  port : Nat
  model : String
  dimensions : Nat
  deriving DecidableEq, Repr

namespace Ollama

def name : String := "ollama"

def defaultPort : Nat := 11434

/-- The address of a daemon cut at its last colon, if a port follows there; slashes at the end do not count. -/
def hostPort (url : String) : String × Nat :=
  let cs := Text.stripEnd (· == '/') url.toList
  let tail := cs.reverse.takeWhile (· ≠ ':')
  if cs.contains ':' then
    match Number.ofText? (Nat.pow 2 16) (.ofList tail.reverse) with
    | some port => (.ofList (cs.take (cs.length - tail.length - 1)), port)
    | none => (.ofList cs, defaultPort)
  else (.ofList cs, defaultPort)

/-- The daemon at an address; nothing if the address is no URL that takes a port. -/
def ofUrl? (url model : String) (dimensions : Nat) : Option Ollama :=
  let (host, port) := hostPort url
  if Url.takesPort host then some ⟨host, port, model, dimensions⟩ else none

def permanentMarks : List String :=
  ["not found", "pull", "invalid", "bad request", "unsupported", "does not support", "decod", "deserializ",
    "missing field", "unknown variant", "expected"]

/-- A failure by its text. -/
def classify (message : String) : EmbedError :=
  let lower := Text.lowerChars message.toList
  if permanentMarks.any fun m => Text.occurs m.toList lower then .permanent name message
  else .unavailable name message

def request (p : Ollama) (texts : List String) : Request :=
  { url := s!"{p.host}:{p.port}/api/embed"
    authorization := none
    body := .obj [("model", .str p.model), ("input", .arr (texts.map .str))] }

def readBody? (text : String) : Option (List Vec) := do
  let fields ← (← Json.parse? text).fields? ["embeddings"]
  let rows ← (fields.lookup "embeddings").or (fields.lookup "embedding")
  (← rows.items?).mapM Json.vector?

def read (r : Response) : Except EmbedError (List Vec) :=
  let text := Text.decodeLossy r.body
  if !r.isSuccess then .error (classify text)
  else match readBody? text with
    | none => .error (classify "Ollama JSON error")
    | some [] => .error (.emptyResponse name)
    | some vs => .ok vs

/-- One call; no texts need no request. -/
def embed (p : Ollama) (send : Transport) (texts : List String) : Except EmbedError (List Vec) :=
  if texts.isEmpty then .ok []
  else match send (p.request texts) with
    | none => .error (classify "Reqwest error")
    | some response => read response

/-- The daemon as a provider where it cannot be reached. -/
def provider (p : Ollama) : Provider :=
  { name, model := p.model, dimensions := p.dimensions
    settled := match p.embed unreachable [""] with
      | .ok vs => .vectors vs
      | .error e => .fails e }

end Ollama

end CodeIndex.Remote
