import CodeIndex.Watch.Debounce

/-!
The loop that watches a project, turn by turn. At one moment a change may come in, an alarm may run out, the oldest
message may be handled and the watch may be cancelled, in any order. Time passes when nothing is left to do at that
moment, and changes keep coming for as long as anybody listens.
-/

namespace CodeIndex.Watch

namespace Debounce

/-- An alarm runs out and sends its message. -/
def ring (d : Debounce) (a : Alarm) : Debounce := { d with armed := d.armed.erase a, sent := d.sent ++ [a] }

/-- Drops all alarms. -/
def abort (d : Debounce) : Debounce := { d with armed := [] }

end Debounce

/-- What the loop did, and when. -/
inductive Deed where
  | heard (time : Nat) (path : String)
  | started (time : Nat) (path : String)
  | stopped (time : Nat)
  deriving DecidableEq, Repr

/-- Whether it is about a path. -/
def Deed.concerns (p : String) : Deed → Bool
  | heard _ q | started _ q => q == p
  | stopped _ => false

structure Loop where
  debounce : Debounce
  now : Nat := 0
  /-- Changes that are still to come, in the order of their times. -/
  incoming : List Change
  stopped : Bool := false
  deeds : List Deed := []
  deriving DecidableEq, Repr

inductive Turn where
  /-- The next change comes in. -/
  | hear
  | ring (alarm : Alarm)
  /-- The oldest message is handled. -/
  | answer
  /-- The loop sees that it is cancelled. -/
  | stop
  | wait
  deriving DecidableEq, Repr

namespace Loop

def start (delay : Nat) (changes : List Change) : Loop := { debounce := { delay }, incoming := changes }

/-- Whether there is nothing to do before time passes. -/
def idle (cancel : Nat) (l : Loop) : Bool :=
  l.debounce.armed.all (fun a => decide (l.now < a.due)) &&
    (l.stopped || l.debounce.sent.isEmpty && l.incoming.head?.all (fun c => decide (l.now < c.time)) &&
      decide (l.now < cancel))

/-- One turn, if it can be taken. A loop that has stopped takes neither changes nor messages. -/
def turn (cancel : Nat) (l : Loop) : Turn → Option Loop
  | .hear =>
    match l.incoming with
    | [] => none
    | c :: rest =>
      if !l.stopped && decide (c.time ≤ l.now) then
        some { l with
          debounce := l.debounce.change l.now c.path, incoming := rest, deeds := l.deeds ++ [.heard l.now c.path] }
      else none
  | .ring a => if a ∈ l.debounce.armed ∧ a.due ≤ l.now then some { l with debounce := l.debounce.ring a } else none
  | .answer =>
    match l.debounce.sent with
    | [] => none
    | a :: rest =>
      if l.stopped then none
      else
        let (debounce, start) := { l.debounce with sent := rest }.handle a
        some { l with debounce, deeds := if start then l.deeds ++ [.started l.now a.path] else l.deeds }
  | .stop =>
    if !l.stopped && decide (cancel ≤ l.now) then
      some { l with stopped := true, debounce := l.debounce.abort, deeds := l.deeds ++ [.stopped l.now] }
    else none
  | .wait => if l.idle cancel then some { l with now := l.now + 1 } else none

/-- Turns one after the other, if all of them can be taken. -/
def run (cancel : Nat) : Loop → List Turn → Option Loop
  | l, [] => some l
  | l, t :: rest => (l.turn cancel t).bind fun l => run cancel l rest

/-- The times at which a path was started. -/
def starts (l : Loop) (p : String) : List Nat :=
  l.deeds.filterMap fun
    | .started t q => if q = p then some t else none
    | _ => none

end Loop

end CodeIndex.Watch
