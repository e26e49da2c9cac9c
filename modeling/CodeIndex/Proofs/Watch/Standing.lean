import CodeIndex.Watch.Loop
import Mathlib.Data.List.Perm.Basic

/-!
How a path stands between its changes and their messages. A path that waits has one alarm that counts, either armed
or, as the last of its messages, sent; a path at rest has none. All other messages of a path are those of older
changes. What happens to one path is nothing to another.
-/

namespace CodeIndex.Watch.Debounce

variable {d d' : Debounce} {p q : String} {a : Alarm} {due : Option Nat} {rest : List Alarm}

theorem filter_kept {α : Type} (f : α → String) (hq : q ≠ p) (l : List α) :
    (l.filter (f · != q)).filter (f · == p) = l.filter (f · == p) := by
  rw [List.filter_filter]
  refine List.filter_congr fun x _ => ?_
  by_cases hx : f x = p
  · simp [hx, Ne.symm hq]
  · simp [hx]

/-- How a path stands, and when the alarm that counts is due. -/
inductive Stands (d : Debounce) (p : String) : Option Nat → Prop where
  | rests (latest : d.latest.filter (·.1 == p) = []) (armed : d.armed.filter (·.path == p) = []) : Stands d p none
  | waits (a : Alarm) (latest : d.latest.filter (·.1 == p) = [(p, a.number)])
      (armed : d.armed.filter (·.path == p) = [a]) (sent : ∀ b ∈ d.sent.filter (·.path == p), b.number < a.number) :
      Stands d p (some a.due)
  | calls (a : Alarm) (older : List Alarm) (latest : d.latest.filter (·.1 == p) = [(p, a.number)])
      (armed : d.armed.filter (·.path == p) = []) (sent : d.sent.filter (·.path == p) = older ++ [a])
      (numbers : ∀ b ∈ older, b.number < a.number) : Stands d p (some a.due)

/-- Only what belongs to the path matters. -/
theorem Stands.congr (h : d.Stands p due) (hl : d'.latest.filter (·.1 == p) = d.latest.filter (·.1 == p))
    (ha : d'.armed.filter (·.path == p) = d.armed.filter (·.path == p))
    (hs : d'.sent.filter (·.path == p) = d.sent.filter (·.path == p)) : d'.Stands p due := by
  cases h with
  | rests latest armed => exact .rests (hl.trans latest) (ha.trans armed)
  | waits a latest armed sent => exact .waits a (hl.trans latest) (ha.trans armed) (hs ▸ sent)
  | calls a older latest armed sent numbers =>
    exact .calls a older (hl.trans latest) (ha.trans armed) (hs.trans sent) numbers

theorem Stands.alarm {s : Nat} (h : d.Stands p (some s)) : ∃ a ∈ d.armed ++ d.sent, a.due = s := by
  cases h with
  | waits a latest armed sent =>
    have ha : a ∈ d.armed.filter (·.path == p) := armed ▸ List.mem_singleton_self a
    exact ⟨a, List.mem_append_left _ (List.mem_of_mem_filter ha), rfl⟩
  | calls a older latest armed sent numbers =>
    have ha : a ∈ d.sent.filter (·.path == p) := sent ▸ List.mem_append_right older (List.mem_singleton_self a)
    exact ⟨a, List.mem_append_right _ (List.mem_of_mem_filter ha), rfl⟩

theorem stands_start (delay : Nat) (p : String) : ({ delay } : Debounce).Stands p none := .rests rfl rfl

theorem isCurrent_iff : d.isCurrent a = true ↔ (a.path, a.number) ∈ d.latest.filter (·.1 == a.path) := by
  simp [isCurrent]

/-- No alarm bears a number that is still to be given. -/
def Numbered (d : Debounce) : Prop := ∀ a ∈ d.armed ++ d.sent, a.number ≤ d.count

theorem Numbered.change (h : d.Numbered) (now : Nat) (q : String) : (d.change now q).Numbered := by
  intro a ha
  rcases List.mem_append.1 ha with ha | ha
  · rcases List.mem_append.1 ha with ha | ha
    · exact Nat.le_succ_of_le (h a (List.mem_append_left _ (List.mem_of_mem_filter ha)))
    · rw [List.mem_singleton.1 ha]
      exact Nat.le_refl _
  · exact Nat.le_succ_of_le (h a (List.mem_append_right _ ha))

theorem stands_change (h : d.Numbered) (now : Nat) (p : String) :
    (d.change now p).Stands p (some (now + d.delay)) := by
  refine .waits ⟨p, d.count + 1, now + d.delay⟩ ?_ ?_ fun b hb => ?_
  · simp [change]
  · simp [change]
  · exact Nat.lt_succ_of_le (h b (List.mem_append_right _ (List.mem_of_mem_filter hb)))

theorem Stands.change (h : d.Stands p due) (hq : q ≠ p) (now : Nat) : (d.change now q).Stands p due := by
  refine h.congr ?_ ?_ rfl
  · rw [Debounce.change, List.filter_cons_of_neg (by simpa using hq), filter_kept Prod.fst hq]
  · rw [Debounce.change, List.filter_append, filter_kept Alarm.path hq, List.filter_cons_of_neg (by simpa using hq),
      List.filter_nil, List.append_nil]

theorem Numbered.ring (h : d.Numbered) (ha : a ∈ d.armed) : (d.ring a).Numbered := by
  intro b hb
  rcases List.mem_append.1 hb with hb | hb
  · exact h b (List.mem_append_left _ (List.mem_of_mem_erase hb))
  · rcases List.mem_append.1 hb with hb | hb
    · exact h b (List.mem_append_right _ hb)
    · rw [List.mem_singleton.1 hb]
      exact h a (List.mem_append_left _ ha)

theorem Numbered.taken (h : d.Numbered) (hs : d.sent = a :: rest) : Numbered { d with sent := rest } :=
  fun b hb => h b ((List.mem_append.1 hb).elim (List.mem_append_left _) fun hb =>
    List.mem_append_right _ (hs ▸ List.mem_cons_of_mem a hb))

/-- An alarm that runs out is still the one that counts. -/
theorem Stands.ring (h : d.Stands p due) (ha : a ∈ d.armed) : (d.ring a).Stands p due := by
  by_cases hp : a.path = p
  · have hmem : a ∈ d.armed.filter (·.path == p) := List.mem_filter.2 ⟨ha, beq_iff_eq.2 hp⟩
    cases h with
    | rests latest armed => rw [armed] at hmem; cases hmem
    | calls b older latest armed sent numbers => rw [armed] at hmem; cases hmem
    | waits b latest armed sent =>
      rw [armed] at hmem
      obtain rfl := List.mem_singleton.1 hmem
      refine .calls a (d.sent.filter (·.path == p)) latest ?_ ?_ sent
      · rw [Debounce.ring, ← List.erase_filter, armed, List.erase_cons_head]
      · simp [Debounce.ring, hp]
  · have hno : a ∉ d.armed.filter (·.path == p) := fun hm => hp (beq_iff_eq.1 (List.mem_filter.1 hm).2)
    refine h.congr rfl ?_ ?_
    · rw [Debounce.ring, ← List.erase_filter, List.erase_of_not_mem hno]
    · simp [Debounce.ring, hp]

theorem handle_current (h : d.isCurrent a = true) :
    d.handle a = ({ d with latest := d.latest.filter (·.1 != a.path) }, true) := if_pos h

/-- A message of the latest change brings its path to rest. -/
theorem Stands.started (h : d.Stands a.path due) (hs : d.sent = a :: rest) (hc : d.isCurrent a = true) :
    due = some a.due ∧ Stands { d with sent := rest, latest := d.latest.filter (·.1 != a.path) } a.path none := by
  have hmem := isCurrent_iff.1 hc
  have hsent : d.sent.filter (·.path == a.path) = a :: rest.filter (·.path == a.path) := by
    rw [hs, List.filter_cons_of_pos (by simp)]
  have hlatest : (d.latest.filter (·.1 != a.path)).filter (·.1 == a.path) = [] := by simp
  cases h with
  | rests latest armed => rw [latest] at hmem; cases hmem
  | waits b latest armed sent =>
    rw [latest, List.mem_singleton] at hmem
    have hb := sent a (hsent ▸ List.mem_cons_self)
    rw [(Prod.mk.inj hmem).2] at hb
    exact absurd hb (Nat.lt_irrefl _)
  | calls b older latest armed sent numbers =>
    rw [latest, List.mem_singleton] at hmem
    rw [hsent] at sent
    cases older with
    | nil =>
      obtain ⟨rfl, -⟩ := List.cons.inj sent
      exact ⟨rfl, .rests hlatest armed⟩
    | cons c older =>
      obtain ⟨rfl, -⟩ := List.cons.inj sent
      have hb := numbers a List.mem_cons_self
      rw [(Prod.mk.inj hmem).2] at hb
      exact absurd hb (Nat.lt_irrefl _)

/-- The message of a path tells another one nothing. -/
theorem Stands.started_other (h : d.Stands p due) (hs : d.sent = a :: rest) (hp : a.path ≠ p) :
    Stands { d with sent := rest, latest := d.latest.filter (·.1 != a.path) } p due := by
  refine h.congr (filter_kept Prod.fst hp _) rfl ?_
  rw [hs, List.filter_cons_of_neg (by simpa using hp)]

/-- A message of an older change is passed over, and the latest change keeps its own. -/
theorem Stands.passed (h : d.Stands p due) (hs : d.sent = a :: rest) (hc : d.isCurrent a = false) :
    Stands { d with sent := rest } p due := by
  by_cases hp : a.path = p
  · subst hp
    have hsent : d.sent.filter (·.path == a.path) = a :: rest.filter (·.path == a.path) := by
      rw [hs, List.filter_cons_of_pos (by simp)]
    cases h with
    | rests latest armed => exact .rests latest armed
    | waits b latest armed sent =>
      refine .waits b latest armed fun c hm => sent c ?_
      rw [hsent]
      exact List.mem_cons_of_mem a hm
    | calls b older latest armed sent numbers =>
      rw [hsent] at sent
      cases older with
      | nil =>
        obtain ⟨rfl, -⟩ := List.cons.inj sent
        have hcurrent : d.isCurrent a = true := isCurrent_iff.2 (latest ▸ List.mem_singleton_self _)
        rw [hcurrent] at hc
        cases hc
      | cons c older =>
        obtain ⟨rfl, hrest⟩ := List.cons.inj sent
        exact .calls b older latest armed hrest fun c hm => numbers c (List.mem_cons_of_mem a hm)
  · refine h.congr rfl rfl ?_
    rw [hs, List.filter_cons_of_neg (by simpa using hp)]

/-- Sorting leaves a single alarm of a path where it is. -/
theorem filter_mergeSort {l : List Alarm} {le : Alarm → Alarm → Bool} (h : l.filter (·.path == p) = rest)
    (hr : rest = [] ∨ ∃ a, rest = [a]) : (l.mergeSort le).filter (·.path == p) = rest := by
  have hperm := (List.mergeSort_perm l le).filter (·.path == p)
  rw [h] at hperm
  rcases hr with rfl | ⟨a, rfl⟩
  · exact hperm.eq_nil
  · exact List.perm_singleton.1 hperm

theorem Numbered.expire (h : d.Numbered) (before : Nat) : (d.expire before).Numbered :=
  fun a ha => h a ((perm_expire d before).mem_iff.1 ha)

/-- Alarms that run out are still those that count. -/
theorem Stands.expire (h : d.Stands p due) (before : Nat) : (d.expire before).Stands p due := by
  have harmed : (d.expire before).armed.filter (·.path == p) =
      (d.armed.filter (·.path == p)).filter fun a => decide (before ≤ a.due) := by
    simp only [Debounce.expire, List.filter_filter, Bool.and_comm]
  have hout : (d.armed.filter fun a => decide (a.due < before)).filter (·.path == p) =
      (d.armed.filter (·.path == p)).filter fun a => decide (a.due < before) := by
    simp only [List.filter_filter, Bool.and_comm]
  have hsent (out : List Alarm) (ho : (d.armed.filter (·.path == p)).filter (fun a => decide (a.due < before)) = out)
      (hl : out = [] ∨ ∃ a, out = [a]) :
      (d.expire before).sent.filter (·.path == p) = d.sent.filter (·.path == p) ++ out := by
    rw [Debounce.expire, List.filter_append, filter_mergeSort (hout.trans ho) hl]
  cases h with
  | rests latest armed => exact .rests latest (by rw [harmed, armed]; rfl)
  | waits a latest armed sent =>
    by_cases hd : a.due < before
    · refine .calls a _ latest ?_ (hsent [a] ?_ (.inr ⟨a, rfl⟩)) sent
      · rw [harmed, armed]
        simp [hd]
      · rw [armed]
        simp [hd]
    · refine .waits a latest ?_ ?_
      · rw [harmed, armed]
        simp [Nat.le_of_not_lt hd]
      · rw [hsent [] (by rw [armed]; simp [Nat.le_of_not_lt hd]) (.inl rfl), List.append_nil]
        exact sent
  | calls a older latest armed sent numbers =>
    refine .calls a older latest (by rw [harmed, armed]; rfl) ?_ numbers
    rw [hsent [] (by rw [armed]; rfl) (.inl rfl), List.append_nil, sent]

theorem due_lt_of_expire {before : Nat} (ha : a ∈ (d.expire before).sent) : a ∈ d.sent ∨ a.due < before := by
  rcases List.mem_append.1 ha with ha | ha
  · exact .inl ha
  · exact .inr (of_decide_eq_true (List.mem_filter.1 (List.mem_mergeSort.1 ha)).2)

theorem le_due_of_expire {before : Nat} (ha : a ∈ (d.expire before).armed) : before ≤ a.due :=
  of_decide_eq_true (List.mem_filter.1 ha).2

/-- What handling messages leaves as it is. -/
theorem handleAll_keeps (d : Debounce) (l : List Alarm) :
    (d.handleAll l).1.delay = d.delay ∧ (d.handleAll l).1.count = d.count ∧ (d.handleAll l).1.armed = d.armed ∧
      (d.handleAll l).1.sent = d.sent := by
  induction l generalizing d with
  | nil => exact ⟨rfl, rfl, rfl, rfl⟩
  | cons a l ih =>
    cases hc : d.isCurrent a with
    | true =>
      rw [handleAll, handle_current hc]
      exact ih { d with latest := d.latest.filter (·.1 != a.path) }
    | false =>
      rw [handleAll, handle_other hc]
      exact ih d

/-- Once all messages are handled, a path is at rest, started by the one that counts, or it goes on waiting. -/
theorem Stands.handleAll {l : List Alarm} (h : Stands { d with sent := l } p due) (hd : d.sent = []) :
    (∃ a ∈ l, due = some a.due ∧ (d.handleAll l).2.filter (·.path == p) = [a] ∧ (d.handleAll l).1.Stands p none) ∨
      ((d.handleAll l).2.filter (·.path == p) = [] ∧ (d.handleAll l).1.Stands p due) := by
  induction l generalizing d due with
  | nil =>
    refine .inr ⟨rfl, ?_⟩
    rw [← hd] at h
    exact h
  | cons a l ih =>
    cases hc : d.isCurrent a with
    | true =>
      rw [Debounce.handleAll, handle_current hc]
      by_cases hp : a.path = p
      · subst hp
        obtain ⟨rfl, hrest⟩ := h.started rfl hc
        rcases ih (d := { d with latest := d.latest.filter (·.1 != a.path) }) hrest hd with
          ⟨b, -, hnone, -⟩ | ⟨hl, hs⟩
        · cases hnone
        · refine .inl ⟨a, List.mem_cons_self, rfl, ?_, hs⟩
          dsimp only
          rw [if_pos rfl, List.filter_cons_of_pos (by simp), hl]
      · rcases ih (d := { d with latest := d.latest.filter (·.1 != a.path) }) (h.started_other rfl hp) hd with
          ⟨b, hb, he, hl, hs⟩ | ⟨hl, hs⟩
        · refine .inl ⟨b, List.mem_cons_of_mem a hb, he, ?_, hs⟩
          dsimp only
          rw [if_pos rfl, List.filter_cons_of_neg (by simpa using hp), hl]
        · refine .inr ⟨?_, hs⟩
          dsimp only
          rw [if_pos rfl, List.filter_cons_of_neg (by simpa using hp), hl]
    | false =>
      rw [Debounce.handleAll, handle_other hc]
      rcases ih (d := d) (h.passed rfl hc) hd with ⟨b, hb, he, hl, hs⟩ | ⟨hl, hs⟩
      · exact .inl ⟨b, List.mem_cons_of_mem a hb, he, hl, hs⟩
      · exact .inr ⟨hl, hs⟩

/-- What doing all that is due before a time leaves as it is, and that no message is left. -/
theorem advance_keeps (d : Debounce) (before : Nat) :
    (d.advance before).1.delay = d.delay ∧ (d.advance before).1.count = d.count ∧
      (d.advance before).1.armed = (d.expire before).armed ∧ (d.advance before).1.sent = [] :=
  handleAll_keeps { d.expire before with sent := [] } (d.expire before).sent

theorem Numbered.advance (h : d.Numbered) (before : Nat) : (d.advance before).1.Numbered := by
  intro a ha
  obtain ⟨-, hcount, harmed, hsent⟩ := d.advance_keeps before
  rw [harmed, hsent, List.append_nil] at ha
  rw [hcount]
  exact h.expire before a (List.mem_append_left _ ha)

/-- When all that is due before a time has been handled, a path has been started, or it is due only then or later. -/
theorem Stands.advance (h : d.Stands p due) (before : Nat) :
    (∃ s, due = some s ∧ ((d.advance before).2.filter (·.path == p)).map (·.due) = [s] ∧
        (d.advance before).1.Stands p none ∧ (s < before ∨ ∃ a ∈ d.sent, a.due = s)) ∨
      ((d.advance before).2.filter (·.path == p) = [] ∧ (d.advance before).1.Stands p due ∧
        ∀ s, due = some s → before ≤ s) := by
  rcases Stands.handleAll (d := { d.expire before with sent := [] }) (h.expire before) rfl with
    ⟨a, ha, he, hl, hs⟩ | ⟨hl, hs⟩
  · refine .inl ⟨a.due, he, congrArg (List.map Alarm.due) hl, hs, ?_⟩
    rcases due_lt_of_expire ha with hsent | hlt
    · exact .inr ⟨a, hsent, rfl⟩
    · exact .inl hlt
  · refine .inr ⟨hl, hs, ?_⟩
    rintro s rfl
    obtain ⟨-, -, harmed, hsent⟩ := d.advance_keeps before
    have hadvanced : (d.advance before).1.Stands p (some s) := hs
    obtain ⟨a, ha, rfl⟩ := hadvanced.alarm
    rw [harmed, hsent, List.append_nil] at ha
    exact le_due_of_expire ha

end CodeIndex.Watch.Debounce
