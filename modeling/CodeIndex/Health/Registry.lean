import CodeIndex.Health.Entry

/-!
The health of all providers, by name. A provider that was never heard of is healthy.
-/

namespace CodeIndex.Health

structure Registry where
  config : Config
  entries : List (String × Entry) := []
  deriving DecidableEq, Repr

/-- One provider's health as others see it. -/
structure Snapshot where
  failures : Nat
  lastFailure : Option Nat
  rateLimitHits : Nat
  concurrency : Nat
  circuit : Circuit
  deriving DecidableEq, Repr

namespace Registry

def get (r : Registry) (name : String) : Entry :=
  ((r.entries.find? (·.1 == name)).map (·.2)).getD (.fresh r.config)

def set (r : Registry) (name : String) (e : Entry) : Registry :=
  { r with
    entries :=
      if r.entries.any (·.1 == name) then r.entries.map fun p => if p.1 == name then (name, e) else p
      else r.entries ++ [(name, e)] }

def update (r : Registry) (name : String) (f : Entry → Entry) : Registry := r.set name (f (r.get name))

/-- Whether calls may go to the provider. -/
def isAvailable (r : Registry) (now : Nat) (name : String) : Bool := (r.get name).circuit r.config now != .opened

def circuit (r : Registry) (now : Nat) (name : String) : Circuit := (r.get name).circuit r.config now

def recordFailure (r : Registry) (now : Nat) (name : String) : Registry :=
  r.update name (Entry.recordFailure r.config now)

def recordRateLimit (r : Registry) (now : Nat) (name : String) : Registry :=
  r.update name (Entry.recordRateLimit r.config now)

def recordSuccess (r : Registry) (name : String) : Registry := r.update name Entry.recordSuccess

/-- Makes a provider known, which is all that a look at its circuit does. -/
def meet (r : Registry) (name : String) : Registry := r.update name id

/-- Brings a provider's limits up to date, as every look at them does. -/
def refresh (r : Registry) (now : Nat) (name : String) : Registry := r.update name (Entry.decay r.config now)

def recommended (r : Registry) (now : Nat) (name : String) : Nat := ((r.get name).decay r.config now).recommended

def snapshot (r : Registry) (now : Nat) (name : String) : Snapshot :=
  let e := (r.get name).decay r.config now
  ⟨e.failures, e.lastFailure, e.rateLimits.length, e.recommended, e.circuit r.config now⟩

/-- Forgets everything, the slots that are held included. -/
def reset (r : Registry) : Registry := { r with entries := [] }

/-- Takes a slot, if the provider has one free. -/
def acquire? (r : Registry) (now : Nat) (name : String) : Option Registry :=
  let e := (r.get name).decay r.config now
  if e.admits then some (r.set name { e with inFlight := e.inFlight + 1 }) else none

/-- Gives a slot back. -/
def release (r : Registry) (name : String) : Registry :=
  r.update name fun e => { e with inFlight := e.inFlight - 1 }

@[simp] theorem config_set (r : Registry) (name : String) (e : Entry) : (r.set name e).config = r.config := rfl

theorem find_replaced {l : List (String × Entry)} {name : String} (e : Entry) (h : ∃ p ∈ l, p.1 = name) :
    (l.map fun p => if p.1 == name then (name, e) else p).find? (·.1 == name) = some (name, e) := by
  induction l with
  | nil => simp at h
  | cons p l ih =>
    rw [List.map_cons, List.find?_cons]
    by_cases hp : p.1 = name
    · simp only [hp, beq_self_eq_true, if_true]
    · have hb : (p.1 == name) = false := by simpa using hp
      simp only [hb, Bool.false_eq_true, if_false]
      refine ih ?_
      obtain ⟨q, hq, he⟩ := h
      rcases List.mem_cons.1 hq with rfl | hq
      · exact absurd he hp
      · exact ⟨q, hq, he⟩

theorem find_replaced_other {name other : String} (e : Entry) (h : other ≠ name) (l : List (String × Entry)) :
    (l.map fun p => if p.1 == name then (name, e) else p).find? (·.1 == other) = l.find? (·.1 == other) := by
  induction l with
  | nil => rfl
  | cons p l ih =>
    rw [List.map_cons, List.find?_cons, List.find?_cons, ih]
    by_cases hp : p.1 = name
    · have hb : (name == other) = false := by simpa using Ne.symm h
      simp only [hp, beq_self_eq_true, if_true, hb]
    · have hb : (p.1 == name) = false := by simpa using hp
      simp only [hb, Bool.false_eq_true, if_false]

theorem get_set_same (r : Registry) (name : String) (e : Entry) : (r.set name e).get name = e := by
  unfold get set
  by_cases h : r.entries.any (·.1 == name) = true
  · simp only [h, if_true]
    rw [find_replaced e (by simpa using h)]
    rfl
  · have : r.entries.find? (·.1 == name) = none := by
      refine List.find?_eq_none.2 fun p hp hn => h ?_
      exact List.any_eq_true.2 ⟨p, hp, hn⟩
    simp [h, List.find?_append, this]

theorem get_set_other (r : Registry) {name other : String} (e : Entry) (h : other ≠ name) :
    (r.set name e).get other = r.get other := by
  unfold get set
  split
  · simp only [find_replaced_other e h]
  · simp [List.find?_append, Ne.symm h]

end Registry

end CodeIndex.Health
