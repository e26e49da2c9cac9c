import CodeIndex.Text.Blank
import CodeIndex.Text.Search
import Mathlib.Data.List.DropRight

/-!
Texts put together from pieces, and what is left of them when their ends are trimmed or a word in front is dropped.
-/

namespace CodeIndex.Text

variable {p : α → Bool} {l pad : List α}

/-- What pieces are joined to holds them and the marks between them. -/
theorem mem_intercalate {mark c : Char} {pieces : List (List Char)} (h : c ∈ [mark].intercalate pieces) :
    c = mark ∨ ∃ p ∈ pieces, c ∈ p := by
  induction pieces with
  | nil => cases h
  | cons p ps ih =>
    cases ps with
    | nil =>
      rw [List.intercalate_singleton] at h
      exact .inr ⟨p, List.mem_cons_self, h⟩
    | cons q qs =>
      rw [List.intercalate_cons_cons] at h
      rcases List.mem_append.1 h with h | h
      · rcases List.mem_append.1 h with h | h
        · exact .inr ⟨p, List.mem_cons_self, h⟩
        · exact .inl (List.mem_singleton.1 h)
      · rcases ih h with h | ⟨r, hr, h⟩
        · exact .inl h
        · exact .inr ⟨r, List.mem_cons_of_mem p hr, h⟩

/-- Neither end of a list satisfies `p`. -/
structure Bare (p : α → Bool) (l : List α) : Prop where
  first : ∀ c ∈ l.head?, p c = false
  last : ∀ c ∈ l.getLast?, p c = false

theorem bare_iff : Bare p l ↔ l.head?.all (!p ·) = true ∧ l.getLast?.all (!p ·) = true := by
  rw [Option.all_eq_true, Option.all_eq_true]
  simp only [Bool.not_eq_eq_eq_not, Bool.not_true]
  exact ⟨fun h => ⟨h.first, h.last⟩, fun ⟨first, last⟩ => ⟨first, last⟩⟩

instance : Decidable (Bare p l) := decidable_of_iff _ bare_iff.symm

theorem dropWhile_eq_self (h : ∀ c ∈ l.head?, p c = false) : l.dropWhile p = l := by
  cases l with
  | nil => rfl
  | cons c l => exact List.dropWhile_cons_of_neg (Bool.eq_false_iff.1 (h c rfl))

/-- Padding in front of a list goes, and so does padding behind it. -/
theorem dropWhile_pad (hpad : ∀ c ∈ pad, p c = true) (h : ∀ c ∈ l.head?, p c = false) : (pad ++ l).dropWhile p = l := by
  rw [List.dropWhile_append_of_pos hpad, dropWhile_eq_self h]

theorem stripEnd_pad (hpad : ∀ c ∈ pad, p c = true) (h : ∀ c ∈ l.getLast?, p c = false) :
    stripEnd p (l ++ pad) = l := by
  have hreverse : (pad.reverse ++ l.reverse).dropWhile p = l.reverse :=
    dropWhile_pad (fun c hc => hpad c (List.mem_reverse.1 hc)) fun c hc => h c (List.head?_reverse ▸ hc)
  rw [stripEnd, List.reverse_append, hreverse, List.reverse_reverse]

theorem strip_pad {before after : List α} (hbefore : ∀ c ∈ before, p c = true) (hafter : ∀ c ∈ after, p c = true)
    (h : Bare p l) : strip p (before ++ l ++ after) = l := by
  have hend : stripEnd p (l ++ after) = l := stripEnd_pad hafter h.last
  rw [List.append_assoc, strip, List.dropWhile_append_of_pos hbefore]
  cases l with
  | nil =>
    rw [List.nil_append, List.dropWhile_eq_nil_iff.2 hafter]
    rfl
  | cons c l =>
    rw [dropWhile_eq_self (l := c :: l ++ after) fun d hd => h.first d hd]
    exact hend

/-- The end of a list is stripped alone as with anything in front of it, if some of it stays. -/
theorem stripEnd_append {l' : List α} (h : ∃ c ∈ l', p c = false) : stripEnd p (l ++ l') = l ++ stripEnd p l' := by
  have hstays : (l'.reverse.dropWhile p).isEmpty = false := by
    obtain ⟨c, hc, hp⟩ := h
    rw [List.isEmpty_eq_false_iff, Ne, List.dropWhile_eq_nil_iff]
    exact fun hall => Bool.false_ne_true (hp.symm.trans (hall c (List.mem_reverse.2 hc)))
  rw [stripEnd, stripEnd, List.reverse_append, List.dropWhile_append, if_neg (Bool.eq_false_iff.1 hstays),
    List.reverse_append, List.reverse_reverse]

/-- What stays of a list when its front is dropped, and then when both its ends are stripped. -/
theorem exists_dropWhile (h : ∃ c ∈ l, p c = false) : ∃ c ∈ l.dropWhile p, p c = false := by
  obtain ⟨c, hc, hp⟩ := h
  rw [← List.takeWhile_append_dropWhile (p := p) (l := l)] at hc
  rcases List.mem_append.1 hc with hc | hc
  · exact absurd (List.mem_takeWhile_imp hc) (Bool.eq_false_iff.1 hp)
  · exact ⟨c, hc, hp⟩

theorem exists_strip (h : ∃ c ∈ l, p c = false) : ∃ c ∈ strip p l, p c = false := by
  obtain ⟨c, hc, hp⟩ := exists_dropWhile h
  obtain ⟨c, hc, hp⟩ := exists_dropWhile (l := (l.dropWhile p).reverse) ⟨c, List.mem_reverse.2 hc, hp⟩
  exact ⟨c, List.mem_reverse.2 hc, hp⟩

theorem length_strip_le (p : α → Bool) (l : List α) : (strip p l).length ≤ (stripEnd p l).length := by
  by_cases h : ∃ c ∈ l, p c = false
  · have hsplit : stripEnd p l = l.takeWhile p ++ strip p l := by
      have hend := stripEnd_append (l := l.takeWhile p) (exists_dropWhile h)
      rwa [List.takeWhile_append_dropWhile] at hend
    rw [hsplit, List.length_append]
    exact Nat.le_add_left _ _
  · have hall : ∀ c ∈ l, p c = true := fun c hc => by
      by_contra hp
      exact h ⟨c, hc, Bool.eq_false_iff.2 hp⟩
    have hnone : l.dropWhile p = [] := List.dropWhile_eq_nil_iff.2 hall
    rw [strip, hnone]
    exact Nat.zero_le _

/-- A text that is not empty begins as it does by itself, whatever follows it. -/
theorem head?_toList_append {s : String} (hs : s ≠ "") (t : String) : (s ++ t).toList.head? = s.toList.head? := by
  rw [String.toList_append, List.head?_append_of_ne_nil _ (mt String.toList_eq_nil_iff.1 hs)]

/-- A text between blanks is what is left when it is trimmed. -/
theorem trim_pad (before after : String) {s : String} (hbefore : isBlankText before = true)
    (hafter : isBlankText after = true) (h : Bare isBlank s.toList) : trim (before ++ s ++ after) = s := by
  rw [trim, String.toList_append, String.toList_append,
    strip_pad (List.all_eq_true.1 hbefore) (List.all_eq_true.1 hafter) h, String.ofList_toList]

theorem trim_eq_self {s : String} (h : Bare isBlank s.toList) : trim s = s := by
  have hpad := trim_pad "" "" rfl rfl h
  rwa [String.empty_append, String.append_empty] at hpad

/-- A word is no longer a prefix for what follows a text, if that begins with none of the word's characters. -/
theorem prefix_append_iff {word l tail : List α} (h : ∀ c ∈ tail.head?, c ∉ word) :
    word <+: l ++ tail ↔ word <+: l := by
  induction l generalizing word with
  | nil =>
    cases word with
    | nil => simp
    | cons c word =>
      refine iff_of_false (fun hc => ?_) (by simp)
      obtain ⟨rest, rfl⟩ := hc
      exact h c rfl List.mem_cons_self
  | cons d l ih =>
    cases word with
    | nil => simp
    | cons c word =>
      rw [List.cons_append, List.cons_prefix_cons, List.cons_prefix_cons,
        ih fun e he hm => h e he (List.mem_cons_of_mem c hm)]

theorem exists_of_not_blank {s : String} (h : isBlankText s = false) : ∃ c ∈ s.toList, isBlank c = false := by
  obtain ⟨c, hc, hp⟩ := List.all_eq_false.1 h
  exact ⟨c, hc, Bool.eq_false_iff.2 hp⟩

theorem isEmpty_trim {s : String} (h : isBlankText s = false) : (trim s).isEmpty = false := by
  obtain ⟨c, hc, -⟩ := exists_strip (exists_of_not_blank h)
  rw [← Bool.not_eq_true, String.isEmpty_iff, ← String.toList_eq_nil_iff, trim, String.toList_ofList]
  exact List.ne_nil_of_mem hc

/-- Only the end of a text is trimmed if something stands in front of it. -/
theorem trim_append {s t : String} (hs : ∀ c ∈ s.toList.head?, isBlank c = false) (hne : s ≠ "")
    (ht : isBlankText t = false) : trim (s ++ t) = s ++ trimEnd t := by
  have hfront : (s ++ t).toList.dropWhile isBlank = (s ++ t).toList :=
    dropWhile_eq_self fun c hc => hs c (head?_toList_append hne t ▸ hc)
  have hboth : strip isBlank (s ++ t).toList = s.toList ++ stripEnd isBlank t.toList := by
    rw [← stripEnd_append (exists_of_not_blank ht), ← String.toList_append, strip, hfront]
    rfl
  rw [trim, hboth, String.ofList_append, String.ofList_toList]
  rfl

theorem length_trim_le (s : String) : (trim s).length ≤ (trimEnd s).length := by
  rw [← String.length_toList, ← String.length_toList, trim, trimEnd, String.toList_ofList, String.toList_ofList]
  exact length_strip_le isBlank s.toList

theorem dropPrefix?_eq (word s : String) :
    dropPrefix? word s = if word.toList <+: s.toList then some (.ofList (s.toList.drop word.length)) else none := by
  simp only [dropPrefix?, List.isPrefixOf_iff_prefix]

theorem dropPrefix?_append (word s : String) : dropPrefix? word (word ++ s) = some s := by
  rw [dropPrefix?_eq, String.toList_append, if_pos (List.prefix_append _ _), ← String.length_toList, List.drop_left,
    String.ofList_toList]

theorem dropPrefix?_append_tail {word s tail : String} (h : ∀ c ∈ tail.toList.head?, c ∉ word.toList) :
    dropPrefix? word (s ++ tail) = (dropPrefix? word s).map (· ++ tail) := by
  rw [dropPrefix?_eq, dropPrefix?_eq, String.toList_append]
  by_cases hs : word.toList <+: s.toList
  · rw [if_pos hs, if_pos ((prefix_append_iff h).2 hs), Option.map_some, List.drop_append_of_le_length,
      String.ofList_append, String.ofList_toList]
    rw [← String.length_toList]
    exact hs.length_le
  · rw [if_neg hs, if_neg fun hc => hs ((prefix_append_iff h).1 hc), Option.map_none]

end CodeIndex.Text
