import CodeIndex.Config.Settings
import CodeIndex.Number.Decimal

/-!
Settings from the environment, which go before those of a text. A value that cannot be read changes nothing.
-/

namespace CodeIndex.Config

/-- The values of variables by name. -/
abbrev Environment := String → Option String

namespace Environment

/-- The variables that are looked at. -/
def names : List String :=
  ["QUARRY_CONFIG", "QUARRY_EMBEDDING_BATCH_SIZE", "QUARRY_EMBEDDING_MAX_CHUNK_SIZE",
    "QUARRY_EMBEDDING_FILE_CONCURRENCY", "QUARRY_EMBEDDING_BATCH_CONCURRENCY", "QUARRY_EMBEDDING_MAX_RETRIES",
    "QUARRY_OPENAI_API_KEY", "QUARRY_OPENAI_ENABLED", "QUARRY_OPENAI_BASE_URL", "QUARRY_OPENAI_MODEL",
    "QUARRY_OLLAMA_ENABLED", "QUARRY_OLLAMA_BASE_URL", "QUARRY_OLLAMA_MODEL", "QUARRY_LOCAL_ENABLED",
    "QUARRY_INDEX_STORE", "QUARRY_SQLITE_PATH", "QUARRY_INDEX_MAX_FILE_BYTES", "QUARRY_INDEX_IGNORE",
    "QUARRY_WATCH_DEBOUNCE_SECS", "QUARRY_WATCH_SWEEP_INTERVAL_SECS"]

/-- The environment with given values. -/
def ofValues (values : List (String × String)) : Environment :=
  fun name => (values.find? (·.1 == name)).map (·.2)

theorem ofValues_cons_same (name value : String) (values : List (String × String)) :
    ofValues ((name, value) :: values) name = some value := by simp [ofValues]

def nat? (env : Environment) (name : String) (limit : Nat) : Option Nat := (env name).bind (Number.ofText? limit)

def size? (env : Environment) (name : String) : Option Nat := env.nat? name (Nat.pow 2 64)

def bool? (env : Environment) (name : String) : Option Bool :=
  match env name with
  | some "true" => some true
  | some "false" => some false
  | _ => none

/-- The items between commas, without blanks about them; empty ones do not count. -/
def items (s : String) : List String :=
  ((s.toList.splitOn ',').map fun cs => String.ofList (Text.strip Text.isBlank cs)).filter (!·.isEmpty)

end Environment

/-- Settings with what the environment says put in their place. -/
def Settings.override (s : Settings) (env : Environment) : Settings :=
  let e := s.embedding
  { s with
    embedding := { e with
      batchSize := (env.size? "QUARRY_EMBEDDING_BATCH_SIZE").getD e.batchSize
      maxChunkSize := (env.size? "QUARRY_EMBEDDING_MAX_CHUNK_SIZE").getD e.maxChunkSize
      fileConcurrency := (env.size? "QUARRY_EMBEDDING_FILE_CONCURRENCY").getD e.fileConcurrency
      batchConcurrency := (env.size? "QUARRY_EMBEDDING_BATCH_CONCURRENCY").getD e.batchConcurrency
      retry.maxAttempts := (env.nat? "QUARRY_EMBEDDING_MAX_RETRIES" (Nat.pow 2 32)).getD e.retry.maxAttempts }
    openai := { s.openai with
      apiKey := ((env "QUARRY_OPENAI_API_KEY").map (⟨·⟩)).or s.openai.apiKey
      enabled := (env.bool? "QUARRY_OPENAI_ENABLED").getD s.openai.enabled
      baseUrl := (env "QUARRY_OPENAI_BASE_URL").getD s.openai.baseUrl
      model := (env "QUARRY_OPENAI_MODEL").getD s.openai.model }
    ollama := { s.ollama with
      enabled := (env.bool? "QUARRY_OLLAMA_ENABLED").getD s.ollama.enabled
      baseUrl := (env "QUARRY_OLLAMA_BASE_URL").getD s.ollama.baseUrl
      model := (env "QUARRY_OLLAMA_MODEL").getD s.ollama.model }
    hashing := { s.hashing with enabled := (env.bool? "QUARRY_LOCAL_ENABLED").getD s.hashing.enabled }
    index := { s.index with
      store := ((env "QUARRY_INDEX_STORE").bind StoreKind.ofName?).getD s.index.store
      databasePath := (env "QUARRY_SQLITE_PATH").getD s.index.databasePath
      maxFileBytes := (env.size? "QUARRY_INDEX_MAX_FILE_BYTES").getD s.index.maxFileBytes
      ignorePatterns := ((env "QUARRY_INDEX_IGNORE").map Environment.items).getD s.index.ignorePatterns }
    watch := { s.watch with
      debounceMs := ((env.size? "QUARRY_WATCH_DEBOUNCE_SECS").map (· * 1000)).getD s.watch.debounceMs
      sweepMs := ((env.size? "QUARRY_WATCH_SWEEP_INTERVAL_SECS").map (· * 1000)).getD s.watch.sweepMs } }

end CodeIndex.Config
