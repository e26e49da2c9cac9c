import CodeIndex.Config.Check
import CodeIndex.Remote.Ollama
import CodeIndex.Remote.OpenAi

/-!
The chain of providers that settings name: first those over the network, then the one at hand.
-/

open CodeIndex.Embedding

namespace CodeIndex.Config

inductive ChainError where
  | noApiKey
  | noProvider
  /-- The daemon's address is no URL that takes a port. -/
  | badAddress
  deriving DecidableEq, Repr

def ChainError.message : ChainError → String
  | noApiKey => "providers.openai is enabled but no api key is set"
  | noProvider => "no embedding provider is enabled"
  | badAddress => "invalid ollama address"

namespace Settings

def openai? (s : Settings) : Except ChainError (List Provider) :=
  if s.openai.enabled then
    match s.apiKey? with
    | none => .error .noApiKey
    | some key => .ok [Remote.OpenAi.provider ⟨key.text, s.openai.baseUrl, s.openai.model, s.openai.dimensions⟩]
  else .ok []

def ollama? (s : Settings) : Except ChainError (List Provider) :=
  if s.ollama.enabled then
    match Remote.Ollama.ofUrl? s.ollama.baseUrl s.ollama.model s.ollama.dimensions with
    | none => .error .badAddress
    | some daemon => .ok [daemon.provider]
  else .ok []

def hashing? (s : Settings) : List Provider :=
  if s.hashing.enabled then [.hashing s.hashing.dimensions] else []

def chain (s : Settings) : Except ChainError (List Provider) := do
  let providers := (← s.openai?) ++ (← s.ollama?) ++ s.hashing?
  if providers.isEmpty then .error .noProvider else .ok providers

end Settings

end CodeIndex.Config
