import CodeIndex.Embedding.Provider
import CodeIndex.Embedding.Retry
import CodeIndex.Health.Registry
import CodeIndex.Indexing.Error
import CodeIndex.Store.Basic

/-!
The course of one batch of texts through a chain of providers. Providers are asked in order; one whose circuit is
open is passed over. A call needs one of the permits that all batches share and a slot of its provider, and keeps
both while it is tried again. Where it fails for good the provider's health is charged, and the next provider gets
the batch, after a pause if the failure was transient.
-/

namespace CodeIndex.Embedding

structure PipelineConfig where
  /-- Texts for one call. -/
  batchSize : Nat
  /-- Longer chunks are split. -/
  maxChunkSize : Nat
  /-- Lines that neighbouring windows of a split chunk share. -/
  overlapLines : Nat
  /-- Files embedded at a time. -/
  fileConcurrency : Nat
  /-- Calls made at a time, over all files. -/
  batchConcurrency : Nat
  retry : RetryPolicy
  /-- The pause before the next provider after a transient failure. -/
  cooldownMs : Nat
  deriving DecidableEq, Repr

/-- Vectors for the texts of a batch, and the space they live in. -/
structure Embedded where
  vectors : List Vec
  signature : Signature
  deriving DecidableEq, Repr

/-- Everything that calls look at and change. -/
structure World where
  now : Nat := 0
  providers : List Provider
  health : Health.Registry
  store : Store

/-- A batch is known by its file's number and its own within the file. -/
structure Task where
  file : Nat
  batch : Nat
  deriving DecidableEq, Repr

/-- The world during a run, with what batches wait for. -/
structure Floor extends World where
  freePermits : Nat
  /-- Batches waiting for a permit, first come first served. -/
  permitQueue : List Task := []
  /-- Batches that were handed a permit while they waited. -/
  granted : List Task := []
  /-- Batches waiting for a slot, and not told since of any slot given back. -/
  slotQueue : List Task := []
  /-- Files to be looked at next. -/
  ready : List Nat := []

/-- Where a batch stands. Providers go by number; `left` counts the tries left after the current one. -/
inductive Stage where
  | choose (provider : Nat)
  | permit (provider : Nat)
  | slot (provider since : Nat)
  | call (provider left : Nat)
  | backoff (provider left since wake : Nat)
  | cooldown (provider since wake : Nat)
  | done (result : Except IndexError Embedded)

structure Batch where
  texts : List String
  /-- Ask one provider only, take what it answers, and leave its health alone. -/
  single : Bool := false
  stage : Stage

namespace Floor

/-- Marks a file to be looked at. -/
def wake (f : Floor) (file : Nat) : Floor := if f.ready.contains file then f else { f with ready := f.ready ++ [file] }

/-- Gives a slot back and tells all who wait for one. -/
def releaseSlot (f : Floor) (provider : String) : Floor :=
  (f.slotQueue.map (·.file)).foldl wake
    { f with health := f.health.release provider, slotQueue := [] }

/-- Gives a permit back, to the first who waits for one. -/
def releasePermit (f : Floor) : Floor :=
  match f.permitQueue with
  | [] => { f with freePermits := f.freePermits + 1 }
  | t :: rest => wake { f with permitQueue := rest, granted := f.granted ++ [t] } t.file

def setProvider (f : Floor) (i : Nat) (p : Provider) : Floor := { f with providers := f.providers.set i p }

end Floor

/-- Checks an answer: as many vectors as texts, none empty, all of one length. A length other than the provider's
own is taken if the store can be widened for it. -/
def checkVectors (store : Store) (p : Provider) (expected : Nat) (vectors : List Vec) :
    Except IndexError (Store × Embedded) :=
  if vectors.length ≠ expected ∨ vectors.any (·.isEmpty) then .error (.embed (.emptyResponse p.name))
  else
    let actual := (vectors.head?.map (·.size)).getD 0
    if vectors.any (·.size != actual) then .error (.embed (.other s!"{p.name} returned vectors of mixed length"))
    else if actual = p.dimensions then .ok (store, ⟨vectors, p.signature⟩)
    else match store.widen actual with
      | .error e => .error (.store e)
      | .ok store => .ok (store, ⟨vectors, { p.signature with dimensions := actual }⟩)

namespace Batch

/-- The next provider in the chain, or the end of it. -/
def next (f : Floor) (b : Batch) (i : Nat) : Batch :=
  { b with stage := if i + 1 < f.providers.length then .choose (i + 1) else .done (.error (.embed .noProvider)) }

/-- Charges the provider's health with a failed call and goes on to the next provider. -/
def book (c : PipelineConfig) (f : Floor) (b : Batch) (i : Nat) (name : String) (e : EmbedError) : Floor × Batch :=
  if e.isTransient then
    ({ f with health := f.health.recordRateLimit f.now name },
      if i + 1 < f.providers.length ∧ c.cooldownMs ≠ 0 then
        { b with stage := .cooldown (i + 1) f.now (f.now + c.cooldownMs) }
      else b.next f i)
  else ({ f with health := f.health.recordFailure f.now name }, b.next f i)

/-- What follows the outcome of a call that is not tried again, its slot and permit given back. -/
def conclude (c : PipelineConfig) (f : Floor) (b : Batch) (i : Nat) (p : Provider)
    (r : Except EmbedError (List Vec)) : Floor × Batch :=
  if b.single then (f, { b with stage := .done ((r.map fun vs => ⟨vs, p.signature⟩).mapError .embed) })
  else match r with
    | .error e => b.book c f i p.name e
    | .ok vectors =>
      match checkVectors f.store p b.texts.length vectors with
      | .error (.embed e) => b.book c f i p.name e
      | .error e => (f, { b with stage := .done (.error e) })
      | .ok (store, embedded) =>
        ({ f with store, health := f.health.recordSuccess p.name }, { b with stage := .done (.ok embedded) })

/-- Takes a slot of the provider, or waits for one. The permit is there already. -/
def enterSlot (c : PipelineConfig) (t : Task) (f : Floor) (b : Batch) (i : Nat) (name : String) : Floor × Batch :=
  match f.health.acquire? f.now name with
  | some health => ({ f with health }, { b with stage := .call i (c.retry.attempts - 1) })
  | none =>
    ({ f with health := f.health.refresh f.now name, slotQueue := f.slotQueue ++ [t] },
      { b with stage := .slot i f.now })

/-- When a batch that waits for a slot looks again by itself and finds one. -/
def slotWake? (f : Floor) (name : String) (since : Nat) : Option Nat :=
  ((f.health.get name).pollWait? f.health.config since).map (since + ·)

/-- One step of a batch at this moment; nothing if it has to wait or is done. -/
def step (c : PipelineConfig) (t : Task) (f : Floor) (b : Batch) : Option (Floor × Batch) :=
  match b.stage with
  | .done _ => none
  | .choose i =>
    match f.providers[i]? with
    | none => some (f, { b with stage := .done (.error (.embed .noProvider)) })
    | some p =>
      if !b.single && !f.health.isAvailable f.now p.name then some (f, b.next f i)
      else if 0 < f.freePermits then
        some (b.enterSlot c t { f with freePermits := f.freePermits - 1 } i p.name)
      else some ({ f with permitQueue := f.permitQueue ++ [t] }, { b with stage := .permit i })
  | .permit i =>
    match f.providers[i]? with
    | none => some (f, { b with stage := .done (.error (.embed .noProvider)) })
    | some p =>
      if f.granted.contains t then
        some (b.enterSlot c t { f with granted := f.granted.filter (· != t) } i p.name)
      else none
  | .slot i since =>
    match f.providers[i]? with
    | none => some (f, { b with stage := .done (.error (.embed .noProvider)) })
    | some p =>
      let told := !f.slotQueue.contains t
      let due := match slotWake? f p.name since with
        | some wake => decide (wake ≤ f.now)
        | none => false
      if told || due then
        let f := { f with slotQueue := f.slotQueue.filter (· != t) }
        some (b.enterSlot c t f i p.name)
      else none
  | .call i left =>
    match f.providers[i]? with
    | none => some (f, { b with stage := .done (.error (.embed .noProvider)) })
    | some p =>
      let (p', r) := p.call b.texts
      let f := f.setProvider i p'
      match left, c.retry.again? (c.retry.attempts - 1 - left) left r with
      | left + 1, some d => some (f, { b with stage := .backoff i left f.now (f.now + d) })
      | _, _ => some (b.conclude c (f.releaseSlot p.name).releasePermit i p r)
  | .backoff i left _ wake => if wake ≤ f.now then some (f, { b with stage := .call i left }) else none
  | .cooldown i _ wake => if wake ≤ f.now then some (f, { b with stage := .choose i }) else none

/-- How far a batch still has to go, given the number of providers and of tries. -/
def distance (providers attempts : Nat) (b : Batch) : Nat :=
  let round := 2 * attempts + 8
  match b.stage with
  | .done _ => 0
  | .choose i => (providers - i) * round + (2 * attempts + 5)
  | .permit i => (providers - i) * round + (2 * attempts + 4)
  | .slot i _ => (providers - i) * round + (2 * attempts + 3)
  | .call i left => (providers - i) * round + min (2 * left + 1) (2 * attempts + 1)
  | .backoff i left .. => (providers - i) * round + min (2 * left + 2) (2 * attempts + 2)
  | .cooldown i .. => (providers - i) * round + (2 * attempts + 6)

/-- When a waiting batch goes on if no other does anything meanwhile. -/
def wakeAt? (f : Floor) (b : Batch) : Option Nat :=
  match b.stage with
  | .slot i since => (f.providers[i]?).bind fun p => slotWake? f p.name since
  | .backoff _ _ _ wake => some wake
  | .cooldown _ _ wake => some wake
  | _ => none

/-- Since when a batch has been waiting for a time to come. -/
def since (b : Batch) : Nat :=
  match b.stage with
  | .slot _ since => since
  | .backoff _ _ since _ => since
  | .cooldown _ since _ => since
  | _ => 0

def result? (b : Batch) : Option (Except IndexError Embedded) :=
  match b.stage with
  | .done r => some r
  | _ => none

/-- Steps until there is no further step. `attempts` is the number of tries of a call. -/
def drive (next : Floor → Batch → Option (Floor × Batch)) (attempts : Nat) (f : Floor) (b : Batch) : Floor × Batch :=
  match next f b with
  | none => (f, b)
  | some (f', b') =>
    if f'.providers.length = f.providers.length ∧
        b'.distance f.providers.length attempts < b.distance f.providers.length attempts then
      drive next attempts f' b'
    else (f', b')
termination_by b.distance f.providers.length attempts
decreasing_by simp_all

/-- Steps as far as the moment allows. -/
def advance (c : PipelineConfig) (t : Task) (f : Floor) (b : Batch) : Floor × Batch :=
  drive (fun f b => b.step c t f) c.retry.attempts f b

/-- One step of a batch with no other beside it, after the time that it has to wait. -/
def stepAlone (c : PipelineConfig) (t : Task) (f : Floor) (b : Batch) : Option (Floor × Batch) :=
  match b.step c t f with
  | some r => some r
  | none => (b.wakeAt? f).bind fun wake => b.step c t { f with now := max f.now wake }

/-- Runs a batch with no other beside it. -/
def runAlone (c : PipelineConfig) (f : Floor) (b : Batch) : Floor × Batch :=
  drive (stepAlone c ⟨0, 0⟩) c.retry.attempts f b

end Batch

end CodeIndex.Embedding
