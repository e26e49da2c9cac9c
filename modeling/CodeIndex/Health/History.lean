import CodeIndex.Health.Registry

/-!
Histories of a registry: events in time, among them callers that wait for a slot and slots that are held under a
name until they are given back.
-/

namespace CodeIndex.Health

inductive Event where
  | failure (provider : String)
  | rateLimit (provider : String)
  | success (provider : String)
  | reset
  /-- A look at a provider's circuit. -/
  | glance (provider : String)
  /-- A look at a provider's limits, or at all that is known of it. -/
  | look (provider : String)
  | advance (ms : Nat)
  /-- Waits for a slot, at most that long, and keeps it under a name. -/
  | acquire (provider slot : String) (timeoutMs : Nat)
  | release (slot : String)
  deriving DecidableEq, Repr

structure Monitor where
  now : Nat := 0
  registry : Registry
  /-- Slots held, by name, with the provider they belong to. -/
  slots : List (String × String) := []
  deriving DecidableEq, Repr

namespace Monitor

def holder? (m : Monitor) (slot : String) : Option String := (m.slots.find? (·.1 == slot)).map (·.2)

/-- Gives back the slot held under a name, if there is one. -/
def drop (m : Monitor) (slot : String) : Monitor :=
  match m.holder? slot with
  | some provider =>
    { m with registry := m.registry.release provider, slots := m.slots.filter (·.1 != slot) }
  | none => m

/-- How long a caller waits for a slot, if one comes free in time without a release. -/
def wait? (m : Monitor) (provider : String) (timeoutMs : Nat) : Option Nat :=
  match (m.registry.get provider).pollWait? m.registry.config m.now with
  | some w => if w ≤ timeoutMs then some w else none
  | none => none

/-- Waits for a slot. A slot that was held under the name is given back after the new one is taken; a caller
who gets none leaves all slots as they are. -/
def acquire (m : Monitor) (provider slot : String) (timeoutMs : Nat) : Monitor :=
  match m.wait? provider timeoutMs with
  | none => { m with now := m.now + timeoutMs }
  | some w =>
    let now := m.now + w
    match m.registry.acquire? now provider with
    | none => { m with now := m.now + timeoutMs }
    | some registry =>
      let m := drop { m with now, registry } slot
      { m with slots := m.slots ++ [(slot, provider)] }

def step (m : Monitor) : Event → Monitor
  | .failure p => { m with registry := m.registry.recordFailure m.now p }
  | .rateLimit p => { m with registry := m.registry.recordRateLimit m.now p }
  | .success p => { m with registry := m.registry.recordSuccess p }
  | .reset => { m with registry := m.registry.reset }
  | .glance p => { m with registry := m.registry.meet p }
  | .look p => { m with registry := m.registry.refresh m.now p }
  | .advance ms => { m with now := m.now + ms }
  | .acquire p slot timeoutMs => m.acquire p slot timeoutMs
  | .release slot => m.drop slot

def run (m : Monitor) (events : List Event) : Monitor := events.foldl step m

end Monitor

end CodeIndex.Health
