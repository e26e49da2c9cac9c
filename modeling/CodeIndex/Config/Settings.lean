import CodeIndex.Embedding.Batch
import CodeIndex.Retrieval

/-!
The settings of an indexer, with their defaults. Times are in milliseconds.
-/

namespace CodeIndex.Config

/-- A text that is never shown. -/
structure Secret where
  text : String
  deriving DecidableEq

def Secret.render (_ : Secret) : String := "[REDACTED]"

def Secret.isEmpty (s : Secret) : Bool := Text.isBlankText s.text

def defaultEmbedding : Embedding.PipelineConfig :=
  { batchSize := 32, maxChunkSize := 1500, overlapLines := 5, fileConcurrency := 2, batchConcurrency := 8
    retry := ⟨5, 1000, 30000⟩, cooldownMs := 1000 }

structure OpenAi where
  enabled : Bool := false
  baseUrl : String := "https://api.openai.com/v1"
  model : String := "text-embedding-3-small"
  dimensions : Nat := 1536
  apiKey : Option Secret := none

structure Ollama where
  enabled : Bool := false
  baseUrl : String := "http://localhost:11434"
  model : String := "nomic-embed-text"
  dimensions : Nat := 768

structure Local where
  enabled : Bool := true
  dimensions : Nat := 384

structure Watch where
  debounceMs : Nat := 180000
  sweepMs : Nat := 300000
  coalesceMs : Nat := 1000

inductive StoreKind where
  | memory
  | sqlite
  deriving DecidableEq, Repr

def StoreKind.render : StoreKind → String
  | memory => "memory"
  | sqlite => "sqlite"

def StoreKind.ofName? (s : String) : Option StoreKind := [memory, sqlite].find? (·.render == s)

structure Index where
  ignorePatterns : List String := []
  maxFileBytes : Nat := 1048576
  store : StoreKind := .sqlite
  databasePath : String := ".quarry/index.db"
  /-- The longest vectors that the store takes. -/
  maxDimensions : Option Nat := none

structure Health where
  failureThreshold : Nat := 3
  failureWindowMs : Nat := 3600000
  rateLimitThreshold : Nat := 3
  rateLimitWindowMs : Nat := 60000

def defaultRetrieval : RetrievalConfig :=
  { candidates := 24, scoreThreshold := .ofFloat 0.2, rrfK := .ofNat 60, semanticWeight := .one, lexicalWeight := .one }

structure Settings where
  embedding : Embedding.PipelineConfig := defaultEmbedding
  openai : OpenAi := {}
  ollama : Ollama := {}
  hashing : Local := {}
  watch : Watch := {}
  index : Index := {}
  health : Health := {}
  retrieval : RetrievalConfig := defaultRetrieval

namespace Settings

def enabledCount (s : Settings) : Nat := [s.openai.enabled, s.ollama.enabled, s.hashing.enabled].count true

/-- A healthy provider is given as many calls at a time as there are in all. -/
def healthConfig (s : Settings) : CodeIndex.Health.Config :=
  { failureThreshold := s.health.failureThreshold, failureWindowMs := s.health.failureWindowMs
    rateLimitThreshold := s.health.rateLimitThreshold, rateLimitWindowMs := s.health.rateLimitWindowMs
    defaultConcurrency := s.embedding.batchConcurrency }

end Settings

/-- Where settings are read from when nothing else is said. -/
def defaultPath : String := "quarry.toml"

/-- The path of the settings: one that is given goes before that of the environment. -/
def resolvePath (explicit fromEnvironment : Option String) : String :=
  (explicit.or fromEnvironment).getD defaultPath

end CodeIndex.Config
