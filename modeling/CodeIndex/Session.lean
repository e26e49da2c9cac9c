/-!
The course of one indexing run: its status, its counts and the errors it met on the way. Once it is completed
or failed, neither status nor errors change any more.
-/

namespace CodeIndex

inductive SessionStatus where
  | starting
  | scanning
  | processing
  | embedding
  | uploading
  | completed
  | failed
  deriving DecidableEq, Repr

namespace SessionStatus

def all : List SessionStatus := [starting, scanning, processing, embedding, uploading, completed, failed]

def isTerminal : SessionStatus → Bool
  | completed | failed => true
  | _ => false

def render : SessionStatus → String
  | starting => "starting"
  | scanning => "scanning"
  | processing => "processing"
  | embedding => "embedding"
  | uploading => "uploading"
  | completed => "completed"
  | failed => "failed"

def ofName? (s : String) : Option SessionStatus := all.find? (·.render == s)

end SessionStatus

/-- An error met during a run, of one file or of the run as a whole. -/
structure SessionError where
  path : Option String
  message : String
  deriving DecidableEq, Repr

def SessionError.render (e : SessionError) : String :=
  match e.path with
  | some path => s!"{path}: {e.message}"
  | none => e.message

structure Session where
  project : String
  status : SessionStatus := .starting
  errors : List SessionError := []
  filesFound : Nat := 0
  filesProcessed : Nat := 0
  filesSkipped : Nat := 0
  filesRemoved : Nat := 0
  chunks : Nat := 0
  symbols : Nat := 0
  embeddings : Nat := 0
  /-- The model had changed, and all files were embedded anew. -/
  migrated : Bool := false
  deriving DecidableEq, Repr

namespace Session

def transition (s : Session) (next : SessionStatus) : Session :=
  if s.status.isTerminal then s else { s with status := next }

def recordError (s : Session) (path : Option String) (message : String) : Session :=
  if s.status.isTerminal then s else { s with errors := s.errors ++ [⟨path, message⟩] }

def complete (s : Session) : Session := s.transition .completed

/-- Ends the session with an error that concerns it as a whole. -/
def fail (s : Session) (message : String) : Session :=
  if s.status.isTerminal then s else { s with errors := s.errors ++ [⟨none, message⟩], status := .failed }

/-- Completed, but not without errors. -/
def isDegraded (s : Session) : Bool := s.status == .completed && !s.errors.isEmpty

end Session

end CodeIndex
