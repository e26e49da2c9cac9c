import CodeIndex.Embedding.Error

/-!
How often a call is tried and how long to wait before the next try. Only transient failures are worth another
try, and the outcome of the last try is the outcome of all.
-/

namespace CodeIndex.Embedding

structure RetryPolicy where
  /-- Tries in all, the first included; zero counts as one. -/
  maxAttempts : Nat
  baseMs : Nat
  maxMs : Nat
  deriving DecidableEq, Repr

namespace RetryPolicy

def attempts (p : RetryPolicy) : Nat := max 1 p.maxAttempts

/-- The growth of the delay: it doubles with each try, up to the largest 32-bit number. -/
def factor (attempt : Nat) : Nat := if attempt < 32 then Nat.pow 2 attempt else Nat.pow 2 32 - 1

/-- The wait after try number `attempt`, counted from zero. A hint of the provider goes before the computed
wait, and the policy's maximum caps both. -/
def delay (p : RetryPolicy) (attempt : Nat) (hintMs : Option Nat) : Nat :=
  min (hintMs.getD (p.baseMs * factor attempt)) p.maxMs

/-- The wait before another try after the outcome of try number `attempt`, if tries are left for it. -/
def again? (p : RetryPolicy) (attempt left : Nat) : Except EmbedError α → Option Nat
  | .error e => if e.isTransient ∧ 0 < left then some (p.delay attempt e.retryAfterMs?) else none
  | .ok _ => none

/-- A call tried until it is done: its outcome, the waits between its tries, and how it left the caller. -/
structure Tried (σ α : Type) where
  state : σ
  waits : List Nat
  outcome : Except EmbedError α

/-- Tries a call, with at most `left` tries more after this one; `waits` are those before it, backwards. -/
def tryFrom (p : RetryPolicy) (call : σ → σ × Except EmbedError α) (waits : List Nat) (s : σ) : Nat → Tried σ α
  | 0 => let (s, r) := call s; ⟨s, waits.reverse, r⟩
  | left + 1 =>
    let (s, r) := call s
    match p.again? waits.length (left + 1) r with
    | none => ⟨s, waits.reverse, r⟩
    | some d => tryFrom p call (d :: waits) s left

def run (p : RetryPolicy) (call : σ → σ × Except EmbedError α) (s : σ) : Tried σ α :=
  p.tryFrom call [] s (p.attempts - 1)

end RetryPolicy

end CodeIndex.Embedding
