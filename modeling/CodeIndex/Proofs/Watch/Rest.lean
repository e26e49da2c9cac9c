import CodeIndex.Proofs.Watch.Standing

/-!
Paths that come to rest. Whatever turns the loop takes, each path is started once for every change that no other
change of it follows in time, and at no other time, as long as the watch is not cancelled.
-/

namespace CodeIndex.Watch

variable {delay cancel now : Nat} {p q : String} {due : Option Nat} {ts : List Nat} {changes : List Change}

/-- When a path is due that changes at these times: the delay after each change that no other follows by then. -/
def settled (delay : Nat) : List Nat → List Nat
  | [] => []
  | t :: rest =>
    if rest.any fun u => decide (u ≤ t + delay) then settled delay rest else (t + delay) :: settled delay rest

/-- When a path is due that waits already, if it does, and changes at these times. -/
def expected (delay : Nat) : Option Nat → List Nat → List Nat
  | none, ts => settled delay ts
  | some due, ts => if ts.any fun u => decide (u ≤ due) then settled delay ts else due :: settled delay ts

/-- No two of these times lie the delay apart. -/
def Apart (delay : Nat) (ts : List Nat) : Prop := ts.Pairwise fun t u => u ≠ t + delay

/-- When a path changes. -/
def timesOf (p : String) (changes : List Change) : List Nat := (changes.filter (·.path == p)).map (·.time)

theorem settled_cons (delay t : Nat) (ts : List Nat) : settled delay (t :: ts) = expected delay (some (t + delay)) ts :=
  rfl

/-- A change comes in time for a path that is not due before. -/
theorem expected_cons {t : Nat} (h : ∀ s, due = some s → t ≤ s) :
    expected delay due (t :: ts) = expected delay (some (t + delay)) ts := by
  cases due with
  | none => rfl
  | some s =>
    have ht : (t :: ts).any (fun u => decide (u ≤ s)) = true := by
      rw [List.any_cons, decide_eq_true (h s rfl), Bool.true_or]
    rw [expected, if_pos ht, settled_cons]

/-- A path that is due before its next change. -/
theorem expected_due {s : Nat} (h : ∀ t ∈ ts, s < t) : expected delay (some s) ts = s :: expected delay none ts := by
  have ht : ts.any (fun u => decide (u ≤ s)) = false :=
    List.any_eq_false.2 fun t ht => by simpa using h t ht
  exact if_neg (by simp [ht])

theorem le_of_mem_settled (h : ∀ t ∈ ts, now ≤ t) : ∀ s ∈ settled delay ts, now ≤ s := by
  induction ts with
  | nil => nofun
  | cons t ts ih =>
    have ih := ih fun u hu => h u (List.mem_cons_of_mem t hu)
    intro s hs
    rw [settled] at hs
    split at hs
    · exact ih s hs
    · rcases List.mem_cons.1 hs with rfl | hs
      · exact Nat.le_add_right_of_le (h t List.mem_cons_self)
      · exact ih s hs

theorem le_of_mem_expected (hdue : ∀ s, due = some s → now ≤ s) (h : ∀ t ∈ ts, now ≤ t) :
    ∀ s ∈ expected delay due ts, now ≤ s := by
  intro s hs
  cases due with
  | none => exact le_of_mem_settled h s hs
  | some u =>
    rw [expected] at hs
    split at hs
    · exact le_of_mem_settled h s hs
    · rcases List.mem_cons.1 hs with rfl | hs
      · exact hdue s rfl
      · exact le_of_mem_settled h s hs

theorem timesOf_cons_same (c : Change) (changes : List Change) :
    timesOf c.path (c :: changes) = c.time :: timesOf c.path changes := by
  rw [timesOf, List.filter_cons_of_pos (by simp)]
  rfl

theorem timesOf_cons_other {c : Change} (hp : c.path ≠ p) (changes : List Change) :
    timesOf p (c :: changes) = timesOf p changes := by
  rw [timesOf, List.filter_cons_of_neg (by simpa using hp)]
  rfl

namespace Loop

variable {l l' : Loop} {turns : List Turn}

/-- What a turn can do. -/
inductive Next (cancel : Nat) (l : Loop) : Loop → Prop where
  | heard (c : Change) (rest : List Change) (live : l.stopped = false) (incoming : l.incoming = c :: rest)
      (due : c.time ≤ l.now) :
      Next cancel l { l with
        debounce := l.debounce.change l.now c.path, incoming := rest, deeds := l.deeds ++ [.heard l.now c.path] }
  | rung (a : Alarm) (armed : a ∈ l.debounce.armed) (due : a.due ≤ l.now) :
      Next cancel l { l with debounce := l.debounce.ring a }
  | started (a : Alarm) (rest : List Alarm) (live : l.stopped = false) (sent : l.debounce.sent = a :: rest)
      (current : l.debounce.isCurrent a = true) :
      Next cancel l { l with
        debounce := { l.debounce with sent := rest, latest := l.debounce.latest.filter (·.1 != a.path) }
        deeds := l.deeds ++ [.started l.now a.path] }
  | passed (a : Alarm) (rest : List Alarm) (live : l.stopped = false) (sent : l.debounce.sent = a :: rest)
      (stale : l.debounce.isCurrent a = false) : Next cancel l { l with debounce := { l.debounce with sent := rest } }
  | stopped (live : l.stopped = false) (due : cancel ≤ l.now) :
      Next cancel l { l with stopped := true, debounce := l.debounce.abort, deeds := l.deeds ++ [.stopped l.now] }
  | waited (idle : l.idle cancel = true) : Next cancel l { l with now := l.now + 1 }

theorem next_of_turn {t : Turn} (h : l.turn cancel t = some l') : Next cancel l l' := by
  cases t with
  | hear =>
    simp only [turn] at h
    split at h
    · cases h
    · rename_i c rest hi
      simp only [Option.ite_none_right_eq_some, Bool.and_eq_true, Bool.not_eq_true', decide_eq_true_eq,
        Option.some.injEq] at h
      obtain ⟨⟨hl, hd⟩, rfl⟩ := h
      exact .heard c rest hl hi hd
  | ring a =>
    simp only [turn, Option.ite_none_right_eq_some, Option.some.injEq] at h
    obtain ⟨⟨ha, hd⟩, rfl⟩ := h
    exact .rung a ha hd
  | answer =>
    simp only [turn] at h
    split at h
    · cases h
    · rename_i a rest hs
      simp only [Option.ite_none_left_eq_some, Bool.not_eq_true, Option.some.injEq] at h
      obtain ⟨hl, rfl⟩ := h
      cases hc : l.debounce.isCurrent a with
      | true =>
        rw [Debounce.handle_current (d := { l.debounce with sent := rest }) hc]
        exact .started a rest hl hs hc
      | false =>
        rw [Debounce.handle_other (d := { l.debounce with sent := rest }) hc]
        exact .passed a rest hl hs hc
  | stop =>
    simp only [turn, Option.ite_none_right_eq_some, Bool.and_eq_true, Bool.not_eq_true', decide_eq_true_eq,
      Option.some.injEq] at h
    obtain ⟨⟨hl, hd⟩, rfl⟩ := h
    exact .stopped hl hd
  | wait =>
    simp only [turn, Option.ite_none_right_eq_some, Option.some.injEq] at h
    obtain ⟨hi, rfl⟩ := h
    exact .waited hi

theorem idle_live (hl : l.stopped = false) (h : l.idle cancel = true) :
    (∀ a ∈ l.debounce.armed, l.now < a.due) ∧ l.debounce.sent = [] ∧ (∀ c ∈ l.incoming.head?, l.now < c.time) ∧
      l.now < cancel := by
  simp only [idle, hl, Bool.false_or, Bool.and_eq_true, List.all_eq_true, List.isEmpty_iff, decide_eq_true_eq] at h
  obtain ⟨harmed, ⟨hsent, hhead⟩, hcancel⟩ := h
  refine ⟨harmed, hsent, fun c hc => ?_, hcancel⟩
  rw [Option.mem_def.1 hc] at hhead
  exact of_decide_eq_true hhead

/-- What every turn keeps holds in the end. -/
theorem run_induct {P : Loop → Prop} (hstep : ∀ l l', P l → Next cancel l l' → P l') (h : P l)
    (hrun : l.run cancel turns = some l') : P l' := by
  induction turns generalizing l with
  | nil =>
    cases hrun
    exact h
  | cons t turns ih =>
    obtain ⟨m, hm, hrun⟩ := Option.bind_eq_some_iff.1 hrun
    exact ih (hstep l m h (next_of_turn hm)) hrun

/-- A loop that has not stopped does at every moment what is due, before time passes. -/
structure Prompt (delay cancel : Nat) (l : Loop) : Prop where
  delay : l.debounce.delay = delay
  numbers : l.debounce.Numbered
  sorted : (l.incoming.map (·.time)).Pairwise (· ≤ ·)
  incoming : ∀ c ∈ l.incoming, l.now ≤ c.time
  armed : ∀ a ∈ l.debounce.armed, l.now ≤ a.due
  sent : ∀ a ∈ l.debounce.sent, a.due = l.now
  cancel : l.now ≤ cancel

theorem Prompt.next (h : l.Prompt delay cancel) (hn : Next cancel l l') (hl : l'.stopped = false) :
    l'.Prompt delay cancel := by
  cases hn with
  | heard c rest live incoming due =>
    have hsorted := h.sorted
    rw [incoming, List.map_cons, List.pairwise_cons] at hsorted
    refine ⟨h.delay, h.numbers.change _ _, hsorted.2, fun c' hm => ?_, fun a ha => ?_, h.sent, h.cancel⟩
    · exact h.incoming c' (incoming ▸ List.mem_cons_of_mem c hm)
    · rcases List.mem_append.1 ha with ha | ha
      · exact h.armed a (List.mem_of_mem_filter ha)
      · rw [List.mem_singleton.1 ha]
        exact Nat.le_add_right _ _
  | rung a armed due =>
    refine ⟨h.delay, h.numbers.ring armed, h.sorted, h.incoming, fun b hb => ?_, fun b hb => ?_, h.cancel⟩
    · exact h.armed b (List.mem_of_mem_erase hb)
    · rcases List.mem_append.1 hb with hb | hb
      · exact h.sent b hb
      · rw [List.mem_singleton.1 hb]
        exact Nat.le_antisymm due (h.armed a armed)
  | started a rest live sent current | passed a rest live sent stale =>
    exact ⟨h.delay, h.numbers.taken sent, h.sorted, h.incoming, h.armed,
      fun b hb => h.sent b (sent ▸ List.mem_cons_of_mem a hb), h.cancel⟩
  | stopped live due => cases hl
  | waited idle =>
    obtain ⟨harmed, hsent, hhead, hcancel⟩ := idle_live (l := l) hl idle
    refine ⟨h.delay, h.numbers, h.sorted, fun c hc => ?_, harmed, hsent ▸ nofun, hcancel⟩
    have hsorted := h.sorted
    change c ∈ l.incoming at hc
    cases hi : l.incoming with
    | nil => rw [hi] at hc; cases hc
    | cons first rest =>
      rw [hi, List.map_cons, List.pairwise_cons] at hsorted
      have hfirst : l.now < first.time := hhead first (by rw [hi]; rfl)
      rw [hi] at hc
      rcases List.mem_cons.1 hc with rfl | hc
      · exact hfirst
      · exact Nat.lt_of_lt_of_le hfirst (hsorted.1 c.time (List.mem_map_of_mem hc))

/-- A path that waits is due now or later. -/
theorem Prompt.le_due (h : l.Prompt delay cancel) (hs : l.debounce.Stands p due) : ∀ s, due = some s → l.now ≤ s := by
  rintro s rfl
  obtain ⟨a, ha, rfl⟩ := hs.alarm
  rcases List.mem_append.1 ha with ha | ha
  · exact h.armed a ha
  · exact Nat.le_of_eq (h.sent a ha).symm

/-- What has been started of a path and what is still expected are all that is due, if the loop goes on. -/
structure Tally (delay : Nat) (changes : List Change) (p : String) (due : Option Nat) (l : Loop) : Prop where
  balance : l.starts p ++ expected delay due (timesOf p l.incoming) = settled delay (timesOf p changes)
  past : ∀ s ∈ l.starts p, s ≤ l.now
  apart : Apart delay (timesOf p l.incoming)
  fresh : ∀ s, due = some s → s ∉ timesOf p l.incoming

/-- How a loop that has not stopped stands towards a path. -/
structure Tracks (delay : Nat) (changes : List Change) (p : String) (due : Option Nat) (l : Loop) : Prop where
  stands : l.debounce.Stands p due
  last : ∀ s, due = some s → ∃ t, s = t + delay ∧ (l.deeds.filter (·.concerns p)).getLast? = some (.heard t p)
  tally : Apart delay (timesOf p changes) → l.Tally delay changes p due

theorem Tally.booked (h : l.Tally delay changes p due) (d : Debounce) :
    Tally delay changes p due { l with debounce := d } := ⟨h.balance, h.past, h.apart, h.fresh⟩

theorem starts_heard (l : Loop) (d : Debounce) (incoming : List Change) (t : Nat) (p q : String) :
    starts { l with debounce := d, incoming, deeds := l.deeds ++ [.heard t q] } p = l.starts p := by
  simp [starts]

theorem starts_started (l : Loop) (d : Debounce) (t : Nat) (p q : String) :
    starts { l with debounce := d, deeds := l.deeds ++ [.started t q] } p = l.starts p ++ if q = p then [t] else [] := by
  by_cases hq : q = p <;> simp [starts, hq]

theorem starts_stopped (l : Loop) (d : Debounce) (t : Nat) (p : String) :
    starts { l with debounce := d, stopped := true, deeds := l.deeds ++ [.stopped t] } p = l.starts p := by
  simp [starts]

theorem last_concerns (deeds : List Deed) {x : Deed} (h : x.concerns p = true) :
    ((deeds ++ [x]).filter (·.concerns p)).getLast? = some x := by
  simp [List.filter_append, h]

theorem last_other (deeds : List Deed) {x : Deed} (h : x.concerns p = false) :
    (deeds ++ [x]).filter (·.concerns p) = deeds.filter (·.concerns p) := by
  simp [List.filter_append, h]

/-- A path waits anew after each of its changes. -/
theorem Tracks.heard {c : Change} {rest : List Change} (h : l.Tracks delay changes c.path due)
    (hp : l.Prompt delay cancel) (incoming : l.incoming = c :: rest) (time : c.time ≤ l.now) :
    Tracks delay changes c.path (some (l.now + delay)) { l with
      debounce := l.debounce.change l.now c.path, incoming := rest, deeds := l.deeds ++ [.heard l.now c.path] } := by
  have hnow : c.time = l.now := Nat.le_antisymm time (hp.incoming c (incoming ▸ List.mem_cons_self))
  refine ⟨hp.delay ▸ Debounce.stands_change hp.numbers l.now c.path, ?_, fun ha => ?_⟩
  · rintro s ⟨⟩
    exact ⟨l.now, rfl, last_concerns l.deeds (by simp [Deed.concerns])⟩
  · obtain ⟨hbalance, hpast, hapart, -⟩ := h.tally ha
    rw [incoming, timesOf_cons_same, hnow] at hbalance hapart
    rw [Apart, List.pairwise_cons] at hapart
    refine ⟨?_, fun s hs => hpast s ?_, hapart.2, ?_⟩
    · rw [starts_heard, ← hbalance, expected_cons (hp.le_due h.stands)]
    · rwa [starts_heard] at hs
    · rintro s ⟨⟩ hm
      exact hapart.1 _ hm rfl

theorem Tracks.heard_other {c : Change} {rest : List Change} (h : l.Tracks delay changes p due) (hc : c.path ≠ p)
    (incoming : l.incoming = c :: rest) :
    Tracks delay changes p due { l with
      debounce := l.debounce.change l.now c.path, incoming := rest, deeds := l.deeds ++ [.heard l.now c.path] } := by
  refine ⟨h.stands.change hc l.now, fun s hs => ?_, fun ha => ?_⟩
  · rw [last_other l.deeds (by simpa [Deed.concerns] using hc)]
    exact h.last s hs
  · obtain ⟨hbalance, hpast, hapart, hfresh⟩ := h.tally ha
    rw [incoming, timesOf_cons_other hc] at hbalance hapart hfresh
    exact ⟨by rwa [starts_heard], by rwa [starts_heard], hapart, hfresh⟩

/-- A path is started when it is due, and then it is at rest. -/
theorem Tracks.started {a : Alarm} {rest : List Alarm} (h : l.Tracks delay changes a.path due)
    (hp : l.Prompt delay cancel) (sent : l.debounce.sent = a :: rest) (current : l.debounce.isCurrent a = true) :
    Tracks delay changes a.path none { l with
      debounce := { l.debounce with sent := rest, latest := l.debounce.latest.filter (·.1 != a.path) }
      deeds := l.deeds ++ [.started l.now a.path] } := by
  obtain ⟨rfl, hstands⟩ := h.stands.started sent current
  have hnow : a.due = l.now := hp.sent a (sent ▸ List.mem_cons_self)
  refine ⟨hstands, nofun, fun ha => ?_⟩
  obtain ⟨hbalance, hpast, hapart, hfresh⟩ := h.tally ha
  have hlater : ∀ t ∈ timesOf a.path l.incoming, a.due < t := by
    intro t ht
    obtain ⟨c, hc, rfl⟩ := List.mem_map.1 ht
    have hle := hp.incoming c (List.mem_of_mem_filter hc)
    have hne : a.due ≠ c.time := fun he => hfresh a.due rfl (he ▸ ht)
    omega
  refine ⟨?_, fun s hs => ?_, hapart, nofun⟩
  · rw [starts_started, if_pos rfl, List.append_assoc, ← hbalance, expected_due hlater, hnow]
    rfl
  · rw [starts_started, if_pos rfl] at hs
    rcases List.mem_append.1 hs with hs | hs
    · exact hpast s hs
    · exact Nat.le_of_eq (List.mem_singleton.1 hs)

theorem Tracks.started_other {a : Alarm} {rest : List Alarm} (h : l.Tracks delay changes p due) (hc : a.path ≠ p)
    (sent : l.debounce.sent = a :: rest) :
    Tracks delay changes p due { l with
      debounce := { l.debounce with sent := rest, latest := l.debounce.latest.filter (·.1 != a.path) }
      deeds := l.deeds ++ [.started l.now a.path] } := by
  refine ⟨h.stands.started_other sent hc, fun s hs => ?_, fun ha => ?_⟩
  · rw [last_other l.deeds (by simpa [Deed.concerns] using hc)]
    exact h.last s hs
  · obtain ⟨hbalance, hpast, hapart, hfresh⟩ := h.tally ha
    have hsame := starts_started l
      { l.debounce with sent := rest, latest := l.debounce.latest.filter (·.1 != a.path) } l.now p a.path
    rw [if_neg hc, List.append_nil] at hsame
    exact ⟨by rwa [hsame], by rwa [hsame], hapart, hfresh⟩

theorem Tracks.next (h : l.Tracks delay changes p due) (hp : l.Prompt delay cancel) (hn : Next cancel l l')
    (hl : l'.stopped = false) : ∃ due', l'.Tracks delay changes p due' := by
  cases hn with
  | heard c rest live incoming time =>
    by_cases hc : c.path = p
    · subst hc
      exact ⟨_, h.heard hp incoming time⟩
    · exact ⟨due, h.heard_other hc incoming⟩
  | rung a armed time => exact ⟨due, h.stands.ring armed, h.last, fun ha => (h.tally ha).booked _⟩
  | started a rest live sent current =>
    by_cases hc : a.path = p
    · subst hc
      exact ⟨none, h.started hp sent current⟩
    · exact ⟨due, h.started_other hc sent⟩
  | passed a rest live sent stale => exact ⟨due, h.stands.passed sent stale, h.last, fun ha => (h.tally ha).booked _⟩
  | stopped live time => cases hl
  | waited idle =>
    exact ⟨due, h.stands, h.last, fun ha =>
      have ht := h.tally ha
      ⟨ht.balance, fun s hs => Nat.le_succ_of_le (ht.past s hs), ht.apart, ht.fresh⟩⟩

end Loop

/-- What a deed needs before it: a path is started only if the last that was heard or done of it is its change, the
delay ago. -/
def Deed.Grounded (delay cancel : Nat) (before : List Deed) : Deed → Prop
  | .heard _ _ => True
  | .started t p => ∃ u, t = u + delay ∧ (before.filter (·.concerns p)).getLast? = some (.heard u p)
  | .stopped t => t = cancel

/-- Every deed has what it needs before it, and nothing comes after a stop. -/
def Orderly (delay cancel : Nat) (deeds : List Deed) : Prop :=
  ∀ before x after, deeds = before ++ x :: after → (∀ t, .stopped t ∉ before) ∧ x.Grounded delay cancel before

theorem Orderly.snoc {deeds : List Deed} {x : Deed} (h : Orderly delay cancel deeds) (hs : ∀ t, .stopped t ∉ deeds)
    (hx : x.Grounded delay cancel deeds) : Orderly delay cancel (deeds ++ [x]) := by
  intro before y after he
  rcases List.eq_nil_or_concat after with rfl | ⟨after, z, rfl⟩
  · obtain ⟨rfl, hy⟩ := List.append_inj' he rfl
    obtain ⟨rfl, -⟩ := List.cons.inj hy
    exact ⟨hs, hx⟩
  · rw [List.concat_eq_append, ← List.cons_append, ← List.append_assoc] at he
    obtain ⟨rfl, -⟩ := List.append_inj' he rfl
    exact h before y after rfl

namespace Loop

variable {l l' : Loop} {turns : List Turn}

/-- A loop that has not stopped. -/
structure Live (delay cancel : Nat) (changes : List Change) (l : Loop) : Prop where
  running : l.stopped = false
  prompt : l.Prompt delay cancel
  silent : ∀ t, .stopped t ∉ l.deeds
  tracks : ∀ p, ∃ due, l.Tracks delay changes p due

/-- What has been started of a path are the times it is due up to a moment. -/
def Parted (delay : Nat) (changes : List Change) (moment : Nat) (p : String) (l : Loop) : Prop :=
  ∃ rest, l.starts p ++ rest = settled delay (timesOf p changes) ∧ (∀ s ∈ l.starts p, s ≤ moment) ∧
    ∀ s ∈ rest, moment ≤ s

/-- A loop that has stopped. -/
structure Ended (delay cancel : Nat) (changes : List Change) (l : Loop) : Prop where
  stopped : l.stopped = true
  late : cancel ≤ l.now
  parted : ∀ p, Apart delay (timesOf p changes) → l.Parted delay changes cancel p

theorem live_start (hs : (changes.map (·.time)).Pairwise (· ≤ ·)) : (start delay changes).Live delay cancel changes where
  running := rfl
  prompt := ⟨rfl, nofun, hs, fun _ _ => Nat.zero_le _, nofun, nofun, Nat.zero_le _⟩
  silent := nofun
  tracks p := ⟨none, Debounce.stands_start delay p, nofun, fun ha => ⟨rfl, nofun, ha, nofun⟩⟩

theorem Live.parted (h : l.Live delay cancel changes) (ha : Apart delay (timesOf p changes)) :
    l.Parted delay changes l.now p := by
  obtain ⟨due, ht⟩ := h.tracks p
  have hp := h.prompt
  refine ⟨_, (ht.tally ha).balance, (ht.tally ha).past, le_of_mem_expected (hp.le_due ht.stands) fun t hm => ?_⟩
  obtain ⟨c, hc, rfl⟩ := List.mem_map.1 hm
  exact hp.incoming c (List.mem_of_mem_filter hc)

theorem Live.next (h : l.Live delay cancel changes) (hn : Next cancel l l') (hl : l'.stopped = false) :
    l'.Live delay cancel changes := by
  refine ⟨hl, h.prompt.next hn hl, ?_, fun p => ?_⟩
  · cases hn with
    | heard c rest live incoming time | started a rest live sent current =>
      intro t hm
      rcases List.mem_append.1 hm with hm | hm
      · exact h.silent t hm
      · cases List.mem_singleton.1 hm
    | rung a armed time | passed a rest live sent stale | waited idle => exact h.silent
    | stopped live time => cases hl
  · obtain ⟨due, ht⟩ := h.tracks p
    exact ht.next h.prompt hn hl

theorem Live.stop (h : l.Live delay cancel changes) (hn : Next cancel l l') (hl : l'.stopped = true) :
    l'.Ended delay cancel changes := by
  cases hn with
  | stopped live time =>
    refine ⟨rfl, time, fun p ha => ?_⟩
    have hnow : l.now = cancel := Nat.le_antisymm h.prompt.cancel time
    obtain ⟨rest, hall, hpast, hlater⟩ := h.parted ha
    rw [hnow] at hpast hlater
    refine ⟨rest, ?_, ?_, hlater⟩
    · rwa [starts_stopped]
    · rwa [starts_stopped]
  | _ =>
    have hrunning := h.running
    rw [show l.stopped = true from hl] at hrunning
    cases hrunning

theorem Live.orderly (h : l.Live delay cancel changes) (ho : Orderly delay cancel l.deeds) (hn : Next cancel l l') :
    Orderly delay cancel l'.deeds := by
  cases hn with
  | heard c rest live incoming time => exact ho.snoc h.silent trivial
  | rung a armed time | passed a rest live sent stale | waited idle => exact ho
  | started a rest live sent current =>
    obtain ⟨due, ht⟩ := h.tracks a.path
    obtain ⟨rfl, -⟩ := ht.stands.started sent current
    have hnow : a.due = l.now := h.prompt.sent a (sent ▸ List.mem_cons_self)
    exact ho.snoc h.silent (ht.last l.now (congrArg some hnow))
  | stopped live time => exact ho.snoc h.silent (Nat.le_antisymm h.prompt.cancel time)

theorem Ended.next (h : l.Ended delay cancel changes) (hn : Next cancel l l') :
    l'.Ended delay cancel changes ∧ l'.deeds = l.deeds := by
  cases hn with
  | rung a armed time => exact ⟨⟨h.stopped, h.late, h.parted⟩, rfl⟩
  | waited idle => exact ⟨⟨h.stopped, Nat.le_succ_of_le h.late, h.parted⟩, rfl⟩
  | heard _ _ live | started _ _ live | passed _ _ live | stopped live =>
    rw [h.stopped] at live
    cases live

/-- What holds of a loop all along. -/
def Kept (delay cancel : Nat) (changes : List Change) (l : Loop) : Prop :=
  (l.Live delay cancel changes ∨ l.Ended delay cancel changes) ∧ Orderly delay cancel l.deeds

theorem Kept.next (h : l.Kept delay cancel changes) (hn : Next cancel l l') : l'.Kept delay cancel changes := by
  obtain ⟨hlive | hended, ho⟩ := h
  · refine ⟨?_, hlive.orderly ho hn⟩
    cases hl : l'.stopped with
    | false => exact .inl (hlive.next hn hl)
    | true => exact .inr (hlive.stop hn hl)
  · obtain ⟨hended, hdeeds⟩ := hended.next hn
    exact ⟨.inr hended, hdeeds ▸ ho⟩

theorem kept_run (hs : (changes.map (·.time)).Pairwise (· ≤ ·)) (hrun : (start delay changes).run cancel turns = some l) :
    l.Kept delay cancel changes := by
  refine run_induct (fun _ _ h hn => h.next hn) ⟨.inl (live_start hs), fun before x after he => ?_⟩ hrun
  have hlen := congrArg List.length he
  simp [start] at hlen

theorem Kept.parted (h : l.Kept delay cancel changes) (ha : Apart delay (timesOf p changes)) :
    l.Parted delay changes (min l.now cancel) p := by
  rcases h.1 with hlive | hended
  · rw [Nat.min_eq_left hlive.prompt.cancel]
    exact hlive.parted ha
  · rw [Nat.min_eq_right hended.late]
    exact hended.parted p ha

/-- What a moment still asks for, at most. -/
def burden (l : Loop) : Nat :=
  3 * l.incoming.length + 2 * l.debounce.armed.length + l.debounce.sent.length + if l.stopped then 0 else 1

theorem turn_current {a : Alarm} {rest : List Alarm} (hl : l.stopped = false) (hs : l.debounce.sent = a :: rest)
    (hc : l.debounce.isCurrent a = true) :
    l.turn cancel .answer = some { l with
      debounce := { l.debounce with sent := rest, latest := l.debounce.latest.filter (·.1 != a.path) }
      deeds := l.deeds ++ [.started l.now a.path] } := by
  have hh := Debounce.handle_current (d := { l.debounce with sent := rest }) hc
  simp [turn, hs, hl, hh]

theorem turn_stale {a : Alarm} {rest : List Alarm} (hl : l.stopped = false) (hs : l.debounce.sent = a :: rest)
    (hc : l.debounce.isCurrent a = false) :
    l.turn cancel .answer = some { l with debounce := { l.debounce with sent := rest } } := by
  have hh := Debounce.handle_other (d := { l.debounce with sent := rest }) hc
  simp [turn, hs, hl, hh]

theorem turn_hear {c : Change} {rest : List Change} (hl : l.stopped = false) (hi : l.incoming = c :: rest)
    (hd : c.time ≤ l.now) :
    l.turn cancel .hear = some { l with
      debounce := l.debounce.change l.now c.path, incoming := rest, deeds := l.deeds ++ [.heard l.now c.path] } := by
  simp [turn, hi, hl, hd]

/-- As long as time may not pass, something else can be done. -/
theorem turn_of_busy (l : Loop) (h : l.idle cancel = false) :
    ∃ t l', l.turn cancel t = some l' ∧ l'.now = l.now ∧ l'.burden < l.burden := by
  by_cases harmed : ∃ a ∈ l.debounce.armed, a.due ≤ l.now
  · obtain ⟨a, ha, hd⟩ := harmed
    refine ⟨.ring a, { l with debounce := l.debounce.ring a }, if_pos ⟨ha, hd⟩, rfl, ?_⟩
    have hlen := List.length_erase_of_mem ha
    have hpos := List.length_pos_of_mem ha
    simp only [burden, Debounce.ring, List.length_append, List.length_singleton, hlen]
    omega
  have hall : l.debounce.armed.all (fun a => decide (l.now < a.due)) = true := by
    rw [List.all_eq_true]
    intro a ha
    exact decide_eq_true (Nat.lt_of_not_le fun hd => harmed ⟨a, ha, hd⟩)
  rw [idle, hall, Bool.true_and, Bool.or_eq_false_iff] at h
  obtain ⟨hl, h⟩ := h
  cases hs : l.debounce.sent with
  | cons a rest =>
    cases hc : l.debounce.isCurrent a with
    | true =>
      refine ⟨.answer, _, turn_current hl hs hc, rfl, ?_⟩
      simp only [burden, hs, List.length_cons]
      omega
    | false =>
      refine ⟨.answer, _, turn_stale hl hs hc, rfl, ?_⟩
      simp only [burden, hs, List.length_cons]
      omega
  | nil =>
    rw [hs, List.isEmpty_nil, Bool.true_and, Bool.and_eq_false_iff] at h
    rcases h with h | h
    · cases hi : l.incoming with
      | nil => rw [hi] at h; cases h
      | cons c rest =>
        have hdue : c.time ≤ l.now := by simpa [hi] using h
        have hlen := List.length_filter_le (fun a => a.path != c.path) l.debounce.armed
        refine ⟨.hear, _, turn_hear hl hi hdue, rfl, ?_⟩
        simp only [burden, Debounce.change, hi, List.length_append, List.length_cons, List.length_nil]
        omega
    · have hdue : cancel ≤ l.now := by simpa using h
      refine ⟨.stop, { l with stopped := true, debounce := l.debounce.abort, deeds := l.deeds ++ [.stopped l.now] },
        if_pos (by simp [hl, hdue]), rfl, ?_⟩
      simp only [burden, Debounce.abort, hl, List.length_nil, if_true, Bool.false_eq_true, if_false]
      omega

theorem run_append {first second : List Turn} {m : Loop} (h : l.run cancel first = some m) :
    l.run cancel (first ++ second) = m.run cancel second := by
  induction first generalizing l with
  | nil =>
    cases h
    rfl
  | cons t first ih =>
    obtain ⟨k, hk, h⟩ := Option.bind_eq_some_iff.1 h
    rw [List.cons_append, run, hk]
    exact ih h

/-- Whatever there is to do at a moment comes to an end. -/
theorem exists_next_moment (cancel : Nat) (l : Loop) : ∃ turns l', l.run cancel turns = some l' ∧ l'.now = l.now + 1 := by
  induction hb : l.burden using Nat.strongRecOn generalizing l with
  | ind n ih =>
    cases hi : l.idle cancel with
    | true => exact ⟨[.wait], { l with now := l.now + 1 }, by rw [run, turn, if_pos hi]; rfl, rfl⟩
    | false =>
      obtain ⟨t, m, ht, hnow, hlt⟩ := l.turn_of_busy hi
      obtain ⟨turns, l', hrun, hnext⟩ := ih m.burden (hb ▸ hlt) m rfl
      exact ⟨t :: turns, l', by rw [run, ht]; exact hrun, hnow ▸ hnext⟩

/-- No loop gets stuck: its clock can reach any time. -/
theorem exists_run_until (cancel time : Nat) (l : Loop) : ∃ turns l', l.run cancel turns = some l' ∧ time ≤ l'.now := by
  induction time with
  | zero => exact ⟨[], l, rfl, Nat.zero_le _⟩
  | succ time ih =>
    obtain ⟨first, m, hm, hle⟩ := ih
    obtain ⟨second, l', hl', hnow⟩ := m.exists_next_moment cancel
    exact ⟨first ++ second, l', (run_append hm).trans hl', by omega⟩

theorem Parted.filter_lt {moment : Nat} (h : l.Parted delay changes moment p) :
    (l.starts p).filter (fun s => decide (s < moment)) =
      (settled delay (timesOf p changes)).filter fun s => decide (s < moment) := by
  obtain ⟨rest, hall, -, hrest⟩ := h
  have hnone : rest.filter (fun s => decide (s < moment)) = [] :=
    List.filter_eq_nil_iff.2 fun s hs => by simpa using hrest s hs
  rw [← hall, List.filter_append, hnone, List.append_nil]

theorem Parted.prefix_le {moment : Nat} (h : l.Parted delay changes moment p) :
    l.starts p <+: (settled delay (timesOf p changes)).filter fun s => decide (s ≤ moment) := by
  obtain ⟨rest, hall, hstarts, -⟩ := h
  have hsame : (l.starts p).filter (fun s => decide (s ≤ moment)) = l.starts p :=
    List.filter_eq_self.2 fun s hs => decide_eq_true (hstarts s hs)
  rw [← hall, List.filter_append, hsame]
  exact List.prefix_append _ _

end Loop

namespace Debounce

variable {d : Debounce}

/-- Nothing that is due from a time on is before it. -/
theorem filter_lt_eq_nil {time : Nat} (h : ∀ s ∈ ts, time ≤ s) : ts.filter (fun s => decide (s < time)) = [] :=
  List.filter_eq_nil_iff.2 fun s hs => by simpa using h s hs

/-- A watch that is cancelled before the next change. -/
theorem Stands.advance_last (h : d.Stands p due) (hsent : ∀ a ∈ d.sent, a.due < cancel)
    (hlate : ∀ t ∈ ts, cancel ≤ t) :
    ((d.advance cancel).2.filter (·.path == p)).map (·.due) =
      (expected delay due ts).filter fun s => decide (s < cancel) := by
  rcases h.advance cancel with ⟨s, rfl, hl, -, hs⟩ | ⟨hl, -, hlater⟩
  · have hlt : s < cancel := hs.elim id fun ⟨a, ha, he⟩ => he ▸ hsent a ha
    rw [hl, expected_due fun t ht => Nat.lt_of_lt_of_le hlt (hlate t ht), List.filter_cons_of_pos (by simpa using hlt),
      expected, filter_lt_eq_nil (le_of_mem_settled hlate)]
  · rw [hl, filter_lt_eq_nil (le_of_mem_expected hlater hlate)]
    rfl

/-- A path that changes no earlier than at some time has been started then, or it is due only then or later. -/
theorem Stands.advance_next (h : d.Stands p due) {before time : Nat} (hbefore : time ≤ before ∧ before ≤ time + 1)
    (hc : time < cancel) (hsent : ∀ a ∈ d.sent, a.due ≤ time) (hts : ∀ t ∈ ts, time ≤ t)
    (hfresh : ∀ s, due = some s → s ∉ ts) :
    ∃ due', (d.advance before).1.Stands p due' ∧ (∀ s, due' = some s → time ≤ s) ∧ (∀ s, due' = some s → s ∉ ts) ∧
      ((d.advance before).2.filter (·.path == p)).map (·.due) ++
          (expected delay due' ts).filter (fun s => decide (s < cancel)) =
        (expected delay due ts).filter fun s => decide (s < cancel) := by
  rcases h.advance before with ⟨s, rfl, hl, hs, hout⟩ | ⟨hl, hs, hlater⟩
  · have hle : s ≤ time := by
      rcases hout with hlt | ⟨a, ha, rfl⟩
      · omega
      · exact hsent a ha
    have hlater : ∀ t ∈ ts, s < t := by
      intro t ht
      have hne : s ≠ t := fun he => hfresh s rfl (he ▸ ht)
      have := hts t ht
      omega
    refine ⟨none, hs, nofun, nofun, ?_⟩
    rw [hl, expected_due hlater, List.filter_cons_of_pos (by simpa using Nat.lt_of_le_of_lt hle hc)]
    rfl
  · refine ⟨due, hs, fun s he => Nat.le_trans hbefore.1 (hlater s he), hfresh, ?_⟩
    rw [hl]
    rfl

/-- In whatever order messages and changes of one time are handled, each path is started when it is due. -/
theorem Stands.run (h : d.Stands p due) (hn : d.Numbered) (hd : d.delay = delay) {now : Nat}
    (hsorted : (now :: changes.map (·.time)).Pairwise (· ≤ ·)) (hapart : Apart delay (timesOf p changes))
    (hfresh : ∀ s, due = some s → s ∉ timesOf p changes) (hsent : ∀ a ∈ d.sent, a.due ≤ now ∧ a.due < cancel) :
    ((d.run cancel changes).filter (·.path == p)).map (·.due) =
      (expected delay due (timesOf p changes)).filter fun s => decide (s < cancel) := by
  induction changes generalizing d due now with
  | nil => exact h.advance_last (fun a ha => (hsent a ha).2) nofun
  | cons c rest ih =>
    rw [List.map_cons, List.pairwise_cons] at hsorted
    obtain ⟨hnow, hsorted⟩ := hsorted
    have hfirst := hnow c.time List.mem_cons_self
    have hrest : ∀ t ∈ timesOf p (c :: rest), c.time ≤ t := by
      intro t ht
      obtain ⟨e, he, rfl⟩ := List.mem_map.1 ht
      rcases List.mem_cons.1 (List.mem_of_mem_filter he) with rfl | he
      · exact Nat.le_refl _
      · exact (List.pairwise_cons.1 hsorted).1 e.time (List.mem_map_of_mem he)
    rw [Debounce.run]
    by_cases hc : cancel ≤ c.time
    · rw [if_pos hc]
      exact h.advance_last (fun a ha => (hsent a ha).2) fun t ht => Nat.le_trans hc (hrest t ht)
    rw [if_neg hc]
    have hbefore : c.time ≤ (if c.ahead then c.time else c.time + 1) ∧
        (if c.ahead then c.time else c.time + 1) ≤ c.time + 1 := by
      split <;> omega
    obtain ⟨due', hs, hlater, hfresh, hsum⟩ := h.advance_next hbefore (Nat.lt_of_not_le hc)
      (fun a ha => Nat.le_trans (hsent a ha).1 hfirst) hrest hfresh
    generalize (if c.ahead then c.time else c.time + 1) = before at hs hsum
    obtain ⟨hdelay, -, -, hnone⟩ := d.advance_keeps before
    have hexpired := hs.expire (c.time + 1)
    have hnumbers := (hn.advance before).expire (c.time + 1)
    have hsent' : ∀ a ∈ ((d.advance before).1.expire (c.time + 1)).sent, a.due ≤ c.time ∧ a.due < cancel := by
      intro a ha
      rcases due_lt_of_expire ha with ha | ha
      · rw [hnone] at ha
        cases ha
      · omega
    dsimp only
    rw [List.filter_append, List.map_append, ← hsum]
    congr 1
    by_cases hp : c.path = p
    · subst hp
      rw [timesOf_cons_same, Apart, List.pairwise_cons] at hapart
      have hdue : ((d.advance before).1.expire (c.time + 1)).delay = delay := hdelay.trans hd
      have hchanged := stands_change hnumbers c.time c.path
      rw [hdue] at hchanged
      rw [timesOf_cons_same, expected_cons hlater]
      refine ih hchanged (hnumbers.change _ _) hdue hsorted hapart.2 ?_ hsent'
      rintro s ⟨⟩ hm
      exact hapart.1 _ hm rfl
    · rw [timesOf_cons_other hp] at hapart hfresh ⊢
      exact ih (hexpired.change hp c.time) (hnumbers.change _ _) (hdelay.trans hd) hsorted hapart hfresh hsent'

end Debounce

/-- Whatever turns the loop takes, a path without two changes that lie the delay apart is started for every change that
no other follows by then, when the delay has passed, once and at no other time, up to the cancel; what other paths do
is nothing to it. A start follows directly on the path's latest change even where a message of an older one waits,
nothing comes after the stop, and the loop never gets stuck. -/
theorem started_when_settled (delay cancel : Nat) {changes : List Change}
    (hs : (changes.map (·.time)).Pairwise (· ≤ ·)) :
    (∀ turns l, (Loop.start delay changes).run cancel turns = some l →
      (∀ p, Apart delay (timesOf p changes) →
        ((l.starts p).filter fun s => decide (s < min l.now cancel)) =
            ((settled delay (timesOf p changes)).filter fun s => decide (s < min l.now cancel)) ∧
          l.starts p <+: (settled delay (timesOf p changes)).filter fun s => decide (s ≤ min l.now cancel)) ∧
      (∀ before t p after, l.deeds = before ++ .started t p :: after →
        ∃ u, t = u + delay ∧ (before.filter (·.concerns p)).getLast? = some (.heard u p)) ∧
      (∀ before t after, l.deeds = before ++ .stopped t :: after → t = cancel ∧ after = []) ∧
      ∀ time, ∃ more l', l.run cancel more = some l' ∧ time ≤ l'.now) ∧
    ∀ p, Apart delay (timesOf p changes) →
      ((({ delay } : Debounce).run cancel changes).filter (·.path == p)).map (·.due) =
        (settled delay (timesOf p changes)).filter fun s => decide (s < cancel) := by
  refine ⟨fun turns l hrun => ?_, fun p ha => ?_⟩
  · have hkept := Loop.kept_run hs hrun
    refine ⟨fun p ha => ?_, fun before t p after he => (hkept.2 before _ after he).2, fun before t after he => ?_,
      fun time => l.exists_run_until cancel time⟩
    · have hparted := hkept.parted ha
      exact ⟨hparted.filter_lt, hparted.prefix_le⟩
    · refine ⟨(hkept.2 before _ after he).2, ?_⟩
      cases after with
      | nil => rfl
      | cons x after =>
        -- The stop would stand before this deed.
        have hsilent := (hkept.2 (before ++ [.stopped t]) x after (by rw [he, List.append_assoc]; rfl)).1 t
        exact absurd (List.mem_append_right before (List.mem_singleton_self _)) hsilent
  · have hfrom : (0 :: changes.map (·.time)).Pairwise (· ≤ ·) := List.pairwise_cons.2 ⟨fun _ _ => Nat.zero_le _, hs⟩
    exact (Debounce.stands_start delay p).run nofun rfl hfrom ha nofun nofun

/-- Two changes of one path that lie the delay apart, with the message of the first under way when the second comes in,
and one of another path between them. -/
def crossing : List Change := [⟨0, "a", false⟩, ⟨2, "b", false⟩, ⟨3, "a", true⟩]

/-- The turns that let the second change pass the message of the first. -/
def crossingTurns : List Turn :=
  [.hear, .wait, .wait, .hear, .wait, .ring ⟨"a", 1, 3⟩, .hear, .answer, .wait, .wait, .ring ⟨"b", 2, 5⟩, .answer, .wait,
    .ring ⟨"a", 3, 6⟩, .answer, .wait, .stop, .wait]

theorem started_when_settled_crossing :
    (crossing.map (·.time)).Pairwise (· ≤ ·) ∧ Apart 3 (timesOf "b" crossing) ∧
      ∃ l, (Loop.start 3 crossing).run 7 crossingTurns = some l ∧
        l.deeds = [.heard 0 "a", .heard 2 "b", .heard 3 "a", .started 5 "b", .started 6 "a", .stopped 7] ∧
        (l.starts "b").filter (fun s => decide (s < 7)) =
          (settled 3 (timesOf "b" crossing)).filter (fun s => decide (s < 7)) := by
  have hsorted : (crossing.map (·.time)).Pairwise (· ≤ ·) := by decide
  have hapart : Apart 3 (timesOf "b" crossing) := by
    unfold Apart
    decide
  have hdeeds : ((Loop.start 3 crossing).run 7 crossingTurns).map (fun l => (l.deeds, l.now)) =
      some ([.heard 0 "a", .heard 2 "b", .heard 3 "a", .started 5 "b", .started 6 "a", .stopped 7], 8) := by
    decide +kernel
  obtain ⟨l, hrun, he⟩ := Option.map_eq_some_iff.1 hdeeds
  obtain ⟨hdeeds, hnow⟩ := Prod.mk.inj he
  have hstarts := ((started_when_settled 3 7 hsorted).1 crossingTurns l hrun).1 "b" hapart
  rw [hnow] at hstarts
  exact ⟨hsorted, hapart, l, hrun, hdeeds, hstarts.1⟩

end CodeIndex.Watch
