/-!
The health of one provider. Failures that follow each other within a window open its circuit, which keeps calls
away until the window has passed; rate limits that follow each other within a window halve the number of calls
it is given at a time, until a whole window passes without one. Times are in milliseconds.
-/

namespace CodeIndex.Health

structure Config where
  failureThreshold : Nat
  failureWindowMs : Nat
  rateLimitThreshold : Nat
  rateLimitWindowMs : Nat
  /-- Calls at a time that a healthy provider is given. -/
  defaultConcurrency : Nat
  deriving DecidableEq, Repr

inductive Circuit where
  | closed
  | opened
  /-- The window has passed, and calls are let through to try. -/
  | halfOpen
  deriving DecidableEq, Repr

def Circuit.render : Circuit → String
  | closed => "closed"
  | opened => "open"
  | halfOpen => "half-open"

structure Entry where
  failures : Nat
  lastFailure : Option Nat
  /-- Times of the rate limits that count towards the next halving. -/
  rateLimits : List Nat
  lastRateLimit : Option Nat
  recommended : Nat
  inFlight : Nat
  deriving DecidableEq, Repr

namespace Entry

def fresh (c : Config) : Entry := ⟨0, none, [], none, c.defaultConcurrency, 0⟩

def circuit (c : Config) (now : Nat) (e : Entry) : Circuit :=
  if e.failures < c.failureThreshold then .closed
  else match e.lastFailure with
    | some t => if now - t < c.failureWindowMs then .opened else .halfOpen
    | none => .halfOpen

/-- Forgets rate limits older than the window, and reductions once a whole window has passed without one. -/
def decay (c : Config) (now : Nat) (e : Entry) : Entry :=
  let quiet := match e.lastRateLimit with
    | some t => decide (c.rateLimitWindowMs ≤ now - t)
    | none => true
  { e with
    rateLimits := e.rateLimits.filter fun t => decide (now - t < c.rateLimitWindowMs)
    recommended := if decide (e.recommended < c.defaultConcurrency) && quiet then c.defaultConcurrency else e.recommended }

/-- A failure that no retry can mend. A failed try of a half-open circuit opens it again at once; a failure
whose predecessor is older than the window counts as the first. -/
def recordFailure (c : Config) (now : Nat) (e : Entry) : Entry :=
  let expired := match e.lastFailure with
    | some t => decide (c.failureWindowMs ≤ now - t)
    | none => false
  { e with
    failures :=
      if e.circuit c now = .halfOpen then c.failureThreshold else if expired then 1 else e.failures + 1
    lastFailure := some now }

/-- A transient failure whose retries ran out. Enough of them within a window halve the recommendation, which
never falls below one, and are counted no further. -/
def recordRateLimit (c : Config) (now : Nat) (e : Entry) : Entry :=
  let e := e.decay c now
  let hits := e.rateLimits ++ [now]
  if c.rateLimitThreshold ≤ hits.length then
    { e with recommended := max (e.recommended / 2) 1, rateLimits := [], lastRateLimit := some now }
  else { e with rateLimits := hits, lastRateLimit := some now }

/-- Closes the circuit. -/
def recordSuccess (e : Entry) : Entry := if 0 < e.failures then { e with failures := 0, lastFailure := none } else e

def admits (e : Entry) : Bool := decide (e.inFlight < e.recommended)

/-- How often a caller that waits for a slot looks again. -/
def pollMs : Nat := 250

/-- How long a caller who finds no slot now and then looks every `pollMs` waits, if no slot is released meanwhile:
until the recommendation returns to its default, if that opens one. -/
def pollWait? (c : Config) (now : Nat) (e : Entry) : Option Nat :=
  if (e.decay c now).admits then some 0
  else if e.recommended < c.defaultConcurrency ∧ e.inFlight < c.defaultConcurrency then
    e.lastRateLimit.map fun t => (t + c.rateLimitWindowMs - now + pollMs - 1) / pollMs * pollMs
  else none

@[simp] theorem inFlight_decay (c : Config) (now : Nat) (e : Entry) : (e.decay c now).inFlight = e.inFlight := rfl

@[simp] theorem failures_decay (c : Config) (now : Nat) (e : Entry) : (e.decay c now).failures = e.failures := rfl

@[simp] theorem circuit_decay (c : Config) (now t : Nat) (e : Entry) :
    (e.decay c now).circuit c t = e.circuit c t := rfl

end Entry

end CodeIndex.Health
