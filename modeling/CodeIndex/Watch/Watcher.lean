import CodeIndex.Config.Settings
import CodeIndex.Indexing.Indexer
import CodeIndex.Watch.Debounce

/-!
Keeping projects in step with their files while these change. A change is heard of a little later, its path is
processed once it has come to rest, and from time to time a full run catches what was missed.
-/

namespace CodeIndex

open Watch

/-- What a path at rest asks for: a path that is gone is forgotten, and a content that is not the one recorded is
indexed. A failure is left to the next full run. -/
def Indexer.follow (c : IndexerConfig) (root : FileTree) (x : Indexer) (project : Project) (path : String) : Indexer :=
  match root.resolve path with
  | .error _ => (x.removeFile project path).1
  | .ok _ =>
    match Indexer.fileChanged root x project path with
    | .ok true => (x.reindexFile c root project path false).1
    | _ => x

/-- A project that is watched. -/
structure Watched where
  project : Project
  rules : Ignore.Rules
  debounce : Debounce
  /-- Changes that will be heard of, and when. -/
  incoming : List (Nat × String) := []
  /-- When the next full run is due. -/
  sweepAt : Nat

namespace Watched

/-- Whether the loop of a project hears of changes of a path. -/
def concerns (a : Watched) (path : String) : Bool :=
  (Path.textBelow? a.project.root path).isSome && a.rules.accepts path

/-- The times at which something is due. -/
def dues (a : Watched) : List Nat := a.sweepAt :: (a.incoming.map (·.1) ++ a.debounce.armed.map (·.due))

/-- Hears of all changes whose time has come. -/
def hear (a : Watched) (now : Nat) : Watched :=
  { a with
    incoming := a.incoming.filter fun i => decide (now < i.1)
    debounce := (a.incoming.filter fun i => decide (i.1 ≤ now)).foldl (fun d i => d.change now i.2) a.debounce }

/-- Does all that is due. -/
def tick (config : Config.Watch) (c : IndexerConfig) (root : FileTree) (now : Nat) (a : Watched) (x : Indexer) :
    Watched × Indexer :=
  let a := a.hear now
  let (debounce, started) := a.debounce.advance (now + 1)
  let x := started.foldl (fun x s => x.follow c root a.project s.path) x
  if now < a.sweepAt then ({ a with debounce }, x)
  else ({ a with debounce, sweepAt := now + config.sweepMs }, (x.indexProject c root a.project.root false).1)

end Watched

structure Watcher where
  config : Config.Watch
  indexer : Indexer
  now : Nat := 0
  watched : List Watched := []

namespace Watcher

def roots (w : Watcher) : List String := w.watched.map (·.project.root)

/-- Starts to watch the project that a path belongs to; one that is watched already is left as it is. -/
def watch (c : IndexerConfig) (root : FileTree) (w : Watcher) (path : String) : Except IndexError (Watcher × Project) := do
  let project ← c.identifyProject root path
  if w.roots.contains project.root then return (w, project)
  let rules ← c.rules project.root
  let a : Watched := { project, rules, debounce := { delay := w.config.debounceMs }, sweepAt := w.now + w.config.sweepMs }
  return ({ w with watched := w.watched ++ [a] }, project)

/-- Stops watching the project that a path belongs to, and tells whether it was watched. What waits is dropped. -/
def unwatch (c : IndexerConfig) (root : FileTree) (w : Watcher) (path : String) : Except IndexError (Watcher × Bool) := do
  let project ← c.identifyProject root path
  return ({ w with watched := w.watched.filter (·.project.root != project.root) }, w.roots.contains project.root)

def shutdown (w : Watcher) : Watcher := { w with watched := [] }

/-- Takes note of changes of paths. -/
def notice (w : Watcher) (paths : List String) : Watcher :=
  { w with
    watched := w.watched.map fun a =>
      { a with incoming := a.incoming ++ (paths.filter a.concerns).map (w.now + w.config.coalesceMs, ·) } }

/-- All projects do what is due. -/
def tick (c : IndexerConfig) (root : FileTree) (w : Watcher) : List Watched × Indexer :=
  let world := { w.indexer.world with now := max w.indexer.world.now w.now }
  let (done, x) := w.watched.foldl (fun (done, x) a =>
    let (a, x) := a.tick w.config c root w.now x
    (a :: done, x)) ([], { w.indexer with world })
  (done.reverse, x)

/-- The next time up to `stop` at which something is due. -/
def next? (now stop : Nat) (watched : List Watched) : Option Nat :=
  ((watched.flatMap Watched.dues).filter fun t => decide (now < t ∧ t ≤ stop)).min?

/-- Lets time pass up to `stop`. -/
def advance (c : IndexerConfig) (root : FileTree) (stop : Nat) (w : Watcher) : Watcher :=
  let (watched, indexer) := w.tick c root
  match next? w.now stop watched with
  | none => { w with now := max w.now stop, watched, indexer }
  | some t =>
    if _h : w.now < t ∧ t ≤ stop then advance c root stop { w with now := t, watched, indexer }
    else { w with watched, indexer }
termination_by stop - w.now
decreasing_by omega

end Watcher

end CodeIndex
