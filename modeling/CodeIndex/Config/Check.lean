import CodeIndex.Chunk.Window
import CodeIndex.Config.Settings

/-!
Settings that an indexer cannot run with.
-/

namespace CodeIndex.Config

inductive Fault where
  | batchSize
  | maxChunkSize
  | concurrency
  | maxRetries
  | overlap (lines : Nat)
  | noProvider
  | noApiKey
  | dimensions (provider : String)
  | debounce
  | sweep
  | thresholds
  | maxDimensions
  | databasePath
  deriving DecidableEq, Repr

def Fault.message : Fault → String
  | batchSize => "embedding.batch_size must be at least 1"
  | maxChunkSize => "embedding.max_chunk_size must be at least 1"
  | concurrency => "embedding.file_concurrency and embedding.batch_concurrency must be at least 1"
  | maxRetries => "embedding.max_retries must be at least 1"
  | overlap lines =>
    s!"embedding.chunk_overlap_lines ({lines}) must be smaller than the {Chunk.fallbackWindow}-line window"
  | noProvider => "no embedding provider is enabled"
  | noApiKey => "providers.openai is enabled but no api key is set (QUARRY_OPENAI_API_KEY)"
  | dimensions provider => s!"providers.{provider}.dimensions must be at least 1"
  | debounce => "watch.debounce_secs must be at least 1"
  | sweep => "watch.sweep_interval_secs must be at least 1"
  | thresholds => "health thresholds must be at least 1"
  | maxDimensions => "index.max_dimensions must be at least 1 when set"
  | databasePath => "index.sqlite_path must not be empty"

namespace Settings

/-- The key of the service, if it is there and not blank. -/
def apiKey? (s : Settings) : Option Secret := s.openai.apiKey.filter (!·.isEmpty)

/-- Each thing that can be wrong, and whether it is. -/
def checks (s : Settings) : List (Bool × Fault) :=
  let e := s.embedding
  [ (e.batchSize == 0, .batchSize),
    (e.maxChunkSize == 0, .maxChunkSize),
    (e.fileConcurrency == 0 || e.batchConcurrency == 0, .concurrency),
    (e.retry.maxAttempts == 0, .maxRetries),
    (decide (Chunk.fallbackWindow ≤ e.overlapLines), .overlap e.overlapLines),
    (s.enabledCount == 0, .noProvider),
    (s.openai.enabled && s.apiKey?.isNone, .noApiKey),
    (s.openai.enabled && s.openai.dimensions == 0, .dimensions "openai"),
    (s.ollama.enabled && s.ollama.dimensions == 0, .dimensions "ollama"),
    (s.hashing.enabled && s.hashing.dimensions == 0, .dimensions "local"),
    (s.watch.debounceMs == 0, .debounce),
    (s.watch.sweepMs == 0, .sweep),
    (s.health.failureThreshold == 0 || s.health.rateLimitThreshold == 0, .thresholds),
    (s.index.maxDimensions == some 0, .maxDimensions),
    (s.index.store == .sqlite && Text.isBlankText s.index.databasePath, .databasePath) ]

/-- The first thing that is wrong with the settings. -/
def fault? (s : Settings) : Option Fault := (s.checks.find? (·.1)).map (·.2)

end Settings

end CodeIndex.Config
