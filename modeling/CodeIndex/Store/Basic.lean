import CodeIndex.Store.Table

/-!
A store of either kind, with the operations that both answer. Operations that change the store give the changed
store back, or an error with the store left as it was.
-/

namespace CodeIndex

open Number CodeIndex.Embedding

inductive Store where
  | memory (s : MemoryStore)
  | table (s : TableStore)

namespace Store

def putFile (f : FileEntry) : Store → Except StoreError Store
  | memory s => .ok (memory (s.putFile f))
  | table s => (s.putFile f).map table

def getFile (project path : String) : Store → Option FileEntry
  | memory s => s.getFile project path
  | table s => s.getFile project path

def listFiles (project : String) : Store → List FileEntry
  | memory s => s.listFiles project
  | table s => s.listFiles project

def deleteFile (id : String) : Store → Store
  | memory s => memory (s.deleteFile id)
  | table s => table (s.deleteFile id)

def deleteRecords (fileId : String) : Store → Store × Nat
  | memory s => let (s, n) := s.deleteRecords fileId; (memory s, n)
  | table s => let (s, n) := s.deleteRecords fileId; (table s, n)

def put (r : Record) : Store → Except StoreError Store
  | memory s => (s.put r).map memory
  | table s => (s.put r).map table

def stats (project : String) : Store → ProjectStats
  | memory s => s.stats project
  | table s => s.stats project

def widen (dimensions : Nat) : Store → Except StoreError Store
  | memory s => (s.widen dimensions).map memory
  | table s => (s.widen dimensions).map table

def search (project : String) (query : Vec) (k : Nat) (minScore : Single) :
    Store → Except StoreError (List Scored)
  | memory s => .ok (s.search project query k minScore)
  | table s => s.search project query k minScore

def checkModel (project : String) (current : Signature) : Store → ModelChange
  | memory s => s.checkModel project current
  | table s => s.checkModel project current

def projectModel (project : String) : Store → Option Signature
  | memory s => s.projectModel project
  | table s => s.projectModel project

def clear (project : String) : Store → Store × Nat
  | memory s => let (s, n) := s.clear project; (memory s, n)
  | table s => let (s, n) := s.clear project; (table s, n)

def projectRecords (project : String) : Store → Except StoreError (List Record)
  | memory s => .ok (s.projectRecords project)
  | table s => s.projectRecords project

/-- The widest vectors a store in memory was asked to hold. -/
def widest? : Store → Option Nat
  | memory s => some s.widest
  | table _ => none

/-- The store as a later process finds it; what lives in memory is gone. -/
def reopen : Store → Store
  | memory s => memory { limit := s.limit, now := s.now }
  | table s => table s.reopen

/-- The store when the clock shows that time. -/
def atTime (now : Nat) : Store → Store
  | memory s => memory { s with now }
  | table s => table { s with now }

end Store

end CodeIndex
