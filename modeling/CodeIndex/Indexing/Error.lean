import CodeIndex.Embedding.Error
import CodeIndex.Session
import CodeIndex.Store.Record
import CodeIndex.Text.Quoted

/-!
Why indexing fails: for a file, for a query, or for a whole run.
-/

namespace CodeIndex

inductive IndexError where
  | io (text : String)
  | store (e : StoreError)
  | embed (e : EmbedError)
  | unsupportedLanguage (path : String)
  | watcher (text : String)
  | discovery (text : String)
  | identity (text : String)
  deriving DecidableEq, Repr

def IndexError.message : IndexError → String
  | io text => s!"IO error: {text}"
  | store e => s!"store error: {e.message}"
  | embed e => s!"embedding error: {e.message}"
  | unsupportedLanguage path => s!"unsupported language: {path}"
  | watcher text => s!"watcher error: {text}"
  | discovery text => s!"file discovery failed: {text}"
  | identity text => s!"project identification failed: {text}"

/-- The message of a store's error, and of what caused it. -/
def StoreError.reasons (e : StoreError) : List String :=
  match e with
  | .io text => [e.message, text]
  | _ => [e.message]

/-- The message of an error, and of what caused it. -/
def IndexError.reasons (e : IndexError) : List String :=
  match e with
  | io text => [e.message, text]
  | store cause => e.message :: cause.reasons
  | embed cause => [e.message, cause.message]
  | watcher text => [e.message, text]
  | _ => [e.message]

/-- A line that is no ignore pattern. -/
def IndexError.badPattern (line : String) : IndexError := .discovery s!"ignore pattern {Text.Quoted.encode line}"

/-- A run that could not go on, with its session as it ended. -/
structure SessionFailure where
  session : Session
  cause : IndexError
  deriving DecidableEq, Repr

def SessionFailure.message (f : SessionFailure) : String := s!"indexing session failed: {f.cause.message}"

end CodeIndex
