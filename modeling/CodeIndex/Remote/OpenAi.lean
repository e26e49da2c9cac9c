import CodeIndex.Embedding.Provider
import CodeIndex.Embedding.Status
import CodeIndex.Json.Reader
import CodeIndex.Json.Record
import CodeIndex.Number.Decimal
import CodeIndex.Remote.Http
import CodeIndex.Remote.Url
import CodeIndex.Text.Utf8

/-!
Embeddings from a service that speaks the OpenAI protocol: one request for all texts of a call, and vectors that
carry their place.
-/

open CodeIndex.Embedding

namespace CodeIndex.Remote

structure OpenAi where
  apiKey : String
  baseUrl : String
  model : String
  dimensions : Nat
  deriving DecidableEq, Repr

namespace OpenAi

def name : String := "openai"

def request (p : OpenAi) (texts : List String) : Request :=
  { url := String.ofList (Text.stripEnd (· == '/') p.baseUrl.toList) ++ "/embeddings"
    authorization := some s!"Bearer {p.apiKey}"
    body := .obj [("input", .arr (texts.map .str)), ("model", .str p.model)] }

/-- Header values hold neither controls, save for tabs, nor deletes. -/
def isHeaderText (s : String) : Bool := s.toList.all fun c => c == '\t' || (32 ≤ c.toNat && c.toNat != 127)

/-- One vector and its place, which is the first if none is given. -/
def readItem? (j : Json) : Option (Nat × Vec) := do
  let fields ← j.fields? ["embedding", "index"]
  let vector ← (← fields.lookup "embedding").vector?
  let index ← match fields.lookup "index" with
    | none => some 0
    | some i => i.size?
  return (index, vector)

def readBody? (text : String) : Option (List (Nat × Vec)) := do
  let fields ← (← Json.parse? text).fields? ["data"]
  (← (← fields.lookup "data").items?).mapM readItem?

/-- Vectors in the order of their places; equal places stay in the order given. -/
def inOrder (items : List (Nat × Vec)) : List Vec :=
  (items.mergeSort fun a b => decide (a.1 ≤ b.1)).map (·.2)

/-- How long a response asks to wait, in milliseconds, if it gives whole seconds. -/
def retryAfterMs? (r : Response) : Option Nat :=
  (r.header? "retry-after").bind fun s => (Number.ofText? (Nat.pow 2 64) (Text.trim s)).map (· * 1000)

def read (r : Response) : Except EmbedError (List Vec) :=
  let text := Text.decodeLossy r.body
  if !r.isSuccess then .error (Status.classify name r.status (retryAfterMs? r) text)
  else match readBody? text with
    | none => .error .json
    | some [] => .error (.emptyResponse name)
    | some items => .ok (inOrder items)

/-- One call. No texts need no request; one that cannot be written is not sent. -/
def embed (p : OpenAi) (send : Transport) (texts : List String) : Except EmbedError (List Vec) :=
  let r := p.request texts
  if texts.isEmpty then .ok []
  else if !isHeaderText p.apiKey || !Url.takesPort r.url then .error (.http false)
  else match send r with
    | none => .error (.http true)
    | some response => read response

/-- The service as a provider where it cannot be reached. -/
def provider (p : OpenAi) : Provider :=
  { name, model := p.model, dimensions := p.dimensions
    settled := match p.embed unreachable [""] with
      | .ok vs => .vectors vs
      | .error e => .fails e }

end OpenAi

end CodeIndex.Remote
