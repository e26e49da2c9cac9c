import CodeIndex.Config.Settings
import CodeIndex.Toml.Table

/-!
Settings from a TOML text. Names that are not known are passed over; what is known has to be of its type.
-/

namespace CodeIndex

namespace Toml

/-- The fields of a record: a table's members, or the items of an array in the order of the names. A date has none
that anybody knows. -/
def fields? (names : List String) : Toml → Option Members
  | table _ members => some members
  | array _ items => some (names.zip items)
  | datetime _ => some []
  | _ => none

def nat? (limit : Nat) : Toml → Option Nat
  | int n => if 0 ≤ n ∧ n < limit then some n.toNat else none
  | _ => none

def bool? : Toml → Option Bool
  | bool b => some b
  | _ => none

def str? : Toml → Option String
  | str s => some s
  | _ => none

def single? : Toml → Option Number.Single
  | float f => some (.ofFloat f)
  | int n => some (if n < 0 then (Number.Single.ofNat n.natAbs).neg else .ofNat n.natAbs)
  | _ => none

def strings? : Toml → Option (List String)
  | array _ items => items.mapM str?
  | _ => none

/-- A field, or its default if it is not there. -/
def field? (fields : Members) (name : String) (read : Toml → Option α) (default : α) : Option α :=
  match lookup name fields with
  | none => some default
  | some v => read v

end Toml

namespace Config

open Toml

def size? : Toml → Option Nat := nat? (Nat.pow 2 64)

def count? : Toml → Option Nat := nat? (Nat.pow 2 32)

/-- A span of seconds, in milliseconds. -/
def seconds? (v : Toml) : Option Nat := (size? v).map (· * 1000)

def readEmbedding? (v : Toml) : Option Embedding.PipelineConfig := do
  let fields ← v.fields? ["batch_size", "max_chunk_size", "chunk_overlap_lines", "file_concurrency",
    "batch_concurrency", "max_retries", "retry_base_delay_ms", "retry_max_delay_ms", "fallback_cooldown_ms"]
  let d := defaultEmbedding
  return {
    batchSize := ← field? fields "batch_size" size? d.batchSize
    maxChunkSize := ← field? fields "max_chunk_size" size? d.maxChunkSize
    overlapLines := ← field? fields "chunk_overlap_lines" size? d.overlapLines
    fileConcurrency := ← field? fields "file_concurrency" size? d.fileConcurrency
    batchConcurrency := ← field? fields "batch_concurrency" size? d.batchConcurrency
    retry := {
      maxAttempts := ← field? fields "max_retries" count? d.retry.maxAttempts
      baseMs := ← field? fields "retry_base_delay_ms" size? d.retry.baseMs
      maxMs := ← field? fields "retry_max_delay_ms" size? d.retry.maxMs }
    cooldownMs := ← field? fields "fallback_cooldown_ms" size? d.cooldownMs }

def readOpenAi? (v : Toml) : Option OpenAi := do
  let fields ← v.fields? ["enabled", "base_url", "model", "dimensions", "api_key"]
  let d : OpenAi := {}
  return {
    enabled := ← field? fields "enabled" bool? d.enabled
    baseUrl := ← field? fields "base_url" str? d.baseUrl
    model := ← field? fields "model" str? d.model
    dimensions := ← field? fields "dimensions" size? d.dimensions
    apiKey := ← field? fields "api_key" (fun v => v.str?.map (some ⟨·⟩)) d.apiKey }

def readOllama? (v : Toml) : Option Ollama := do
  let fields ← v.fields? ["enabled", "base_url", "model", "dimensions"]
  let d : Ollama := {}
  return {
    enabled := ← field? fields "enabled" bool? d.enabled
    baseUrl := ← field? fields "base_url" str? d.baseUrl
    model := ← field? fields "model" str? d.model
    dimensions := ← field? fields "dimensions" size? d.dimensions }

def readLocal? (v : Toml) : Option Local := do
  let fields ← v.fields? ["enabled", "dimensions"]
  let d : Local := {}
  return {
    enabled := ← field? fields "enabled" bool? d.enabled
    dimensions := ← field? fields "dimensions" size? d.dimensions }

def readWatch? (v : Toml) : Option Watch := do
  let fields ← v.fields? ["debounce_secs", "sweep_interval_secs", "coalesce_ms"]
  let d : Watch := {}
  return {
    debounceMs := ← field? fields "debounce_secs" seconds? d.debounceMs
    sweepMs := ← field? fields "sweep_interval_secs" seconds? d.sweepMs
    coalesceMs := ← field? fields "coalesce_ms" size? d.coalesceMs }

/-- The kind of a store by name; the name may also be that of the one member of a table, with nothing in it. -/
def readStore? : Toml → Option StoreKind
  | .str s => StoreKind.ofName? s
  | .table _ [(name, .table _ [])] => StoreKind.ofName? name
  | .table _ [(name, .array _ [])] => StoreKind.ofName? name
  | _ => none

def readIndex? (v : Toml) : Option Index := do
  let fields ← v.fields? ["ignore_patterns", "max_file_bytes", "store", "sqlite_path", "max_dimensions"]
  let d : Index := {}
  return {
    ignorePatterns := ← field? fields "ignore_patterns" strings? d.ignorePatterns
    maxFileBytes := ← field? fields "max_file_bytes" size? d.maxFileBytes
    store := ← field? fields "store" readStore? d.store
    databasePath := ← field? fields "sqlite_path" str? d.databasePath
    maxDimensions := ← field? fields "max_dimensions" (fun v => (size? v).map some) d.maxDimensions }

def readHealth? (v : Toml) : Option Health := do
  let fields ← v.fields? ["failure_threshold", "failure_window_secs", "rate_limit_threshold", "rate_limit_window_secs"]
  let d : Health := {}
  return {
    failureThreshold := ← field? fields "failure_threshold" count? d.failureThreshold
    failureWindowMs := ← field? fields "failure_window_secs" seconds? d.failureWindowMs
    rateLimitThreshold := ← field? fields "rate_limit_threshold" count? d.rateLimitThreshold
    rateLimitWindowMs := ← field? fields "rate_limit_window_secs" seconds? d.rateLimitWindowMs }

def readRetrieval? (v : Toml) : Option RetrievalConfig := do
  let fields ← v.fields? ["candidates", "score_threshold"]
  let d := defaultRetrieval
  let candidates ← field? fields "candidates" size? d.candidates
  let scoreThreshold ← field? fields "score_threshold" single? d.scoreThreshold
  return { d with candidates, scoreThreshold }

/-- The providers of a text: those over the network, and the one at hand. -/
def readProviders? (v : Toml) : Option (OpenAi × Ollama × Local) := do
  let fields ← v.fields? ["openai", "ollama", "local"]
  return (← field? fields "openai" readOpenAi? {}, ← field? fields "ollama" readOllama? {},
    ← field? fields "local" readLocal? {})

/-- The settings of a text; nothing if it is no TOML or a value has not the type of its name. -/
def ofText? (text : String) : Option Settings := do
  let fields ← Toml.parse? text
  let (openai, ollama, hashing) ← field? fields "providers" readProviders? ({}, {}, {})
  return {
    embedding := ← field? fields "embedding" readEmbedding? defaultEmbedding
    openai, ollama, hashing
    watch := ← field? fields "watch" readWatch? {}
    index := ← field? fields "index" readIndex? {}
    health := ← field? fields "health" readHealth? {}
    retrieval := ← field? fields "retrieval" readRetrieval? defaultRetrieval }

end Config

end CodeIndex
