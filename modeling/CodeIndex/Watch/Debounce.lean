/-!
Waiting for paths to come to rest. Every change of a path sets its alarm anew, and a path is processed when its alarm
has run out. An alarm that runs out sends a message first; if the path changes before the message is handled, the
message bears the number of an older change and is passed over.
-/

namespace CodeIndex.Watch

structure Alarm where
  path : String
  /-- The number of the change that set it. -/
  number : Nat
  due : Nat
  deriving DecidableEq, Repr

structure Debounce where
  delay : Nat
  /-- How many changes there were. -/
  count : Nat := 0
  /-- The number of the latest change of every path that waits. -/
  latest : List (String × Nat) := []
  armed : List Alarm := []
  /-- Alarms that have run out and whose messages wait. -/
  sent : List Alarm := []
  deriving DecidableEq, Repr

namespace Debounce

/-- Sets the alarm of a path anew. A message that is under way stays. -/
def change (d : Debounce) (now : Nat) (path : String) : Debounce :=
  { d with
    count := d.count + 1
    latest := (path, d.count + 1) :: d.latest.filter (·.1 != path)
    armed := d.armed.filter (·.path != path) ++ [⟨path, d.count + 1, now + d.delay⟩] }

/-- Alarms due before a time send their messages, in the order in which they are due. -/
def expire (d : Debounce) (before : Nat) : Debounce :=
  { d with
    armed := d.armed.filter fun a => decide (before ≤ a.due)
    sent := d.sent ++ (d.armed.filter fun a => decide (a.due < before)).mergeSort fun a b => decide (a.due ≤ b.due) }

/-- Whether a message is that of the latest change of its path. -/
def isCurrent (d : Debounce) (a : Alarm) : Bool := d.latest.contains (a.path, a.number)

/-- Handles one message, and gives back whether its path is to be processed. -/
def handle (d : Debounce) (a : Alarm) : Debounce × Bool :=
  if d.isCurrent a then ({ d with latest := d.latest.filter (·.1 != a.path) }, true) else (d, false)

/-- Handles messages in turn, and gives back those whose paths are to be processed. -/
def handleAll (d : Debounce) : List Alarm → Debounce × List Alarm
  | [] => (d, [])
  | a :: rest =>
    let (d, start) := d.handle a
    let (d, started) := handleAll d rest
    (d, if start then a :: started else started)

/-- Lets all alarms due before a time run out and handles their messages. -/
def advance (d : Debounce) (before : Nat) : Debounce × List Alarm :=
  let d := d.expire before
  { d with sent := [] }.handleAll d.sent

end Debounce

/-- A change of a path at a time. -/
structure Change where
  time : Nat
  path : String
  /-- Whether it is handled ahead of the messages of its time. -/
  ahead : Bool := false
  deriving DecidableEq, Repr

namespace Debounce

/-- The paths that are processed, and when, in the course of changes in the order of their times. Nothing is started
from the time of the cancel on. -/
def run (d : Debounce) (cancel : Nat) : List Change → List Alarm
  | [] => (d.advance cancel).2
  | c :: rest =>
    if cancel ≤ c.time then (d.advance cancel).2
    else
      let (d, started) := d.advance (if c.ahead then c.time else c.time + 1)
      started ++ ((d.expire (c.time + 1)).change c.time c.path).run cancel rest

theorem handle_other {d : Debounce} {a : Alarm} (h : d.isCurrent a = false) : d.handle a = (d, false) := by
  simp [handle, h]

/-- Alarms that run out are moved: none is lost and none comes up twice. -/
theorem perm_expire (d : Debounce) (before : Nat) :
    ((d.expire before).armed ++ (d.expire before).sent).Perm (d.armed ++ d.sent) := by
  have parts : (d.armed.filter (fun a => decide (before ≤ a.due)) ++
      d.armed.filter fun a => decide (a.due < before)).Perm d.armed := by
    have h := List.filter_append_perm (fun a : Alarm => decide (before ≤ a.due)) d.armed
    simpa [← decide_not] using h
  have moved := parts.append_right d.sent
  refine List.Perm.trans ?_ moved
  simp only [expire, List.append_assoc]
  refine List.Perm.append_left _ (List.perm_append_comm.trans ?_)
  exact (List.mergeSort_perm _ _).append_right _

end Debounce

end CodeIndex.Watch
