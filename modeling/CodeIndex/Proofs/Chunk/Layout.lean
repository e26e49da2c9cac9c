import CodeIndex.Chunk.Layout
import Mathlib.Data.List.Chain

/-!
Chunks that cover lines. A layout under way holds spans that follow one another from the first line to the one
before `nextLine`; placing a region and filling a gap keep that, so the plan of a whole file covers all its lines.
-/

namespace CodeIndex.Chunk

/-- Chunks that follow one another over all lines, each holding just its own, numbered from zero. -/
structure Covers (lines : List String) (chunks : List Chunk) : Prop where
  first : chunks.head?.map (·.startLine) = some 1
  last : chunks.getLast?.map (·.endLine) = some lines.length
  next : chunks.IsChain fun a b => b.startLine = a.endLine + 1
  ordered : ∀ c ∈ chunks, c.startLine ≤ c.endLine
  index : chunks.map (·.index) = List.range chunks.length
  content : ∀ c ∈ chunks,
    c.content = Text.joinLines ((lines.drop (c.startLine - 1)).take (c.endLine - (c.startLine - 1)))
  tokens : ∀ c ∈ chunks, 4 * c.tokens < c.content.length + 4 ∧ c.content.length ≤ 4 * c.tokens

/-- Chunks that follow one another have no line in common. -/
theorem separate_of_next {chunks : List Chunk} (next : chunks.IsChain fun a b => b.startLine = a.endLine + 1)
    (ordered : ∀ c ∈ chunks, c.startLine ≤ c.endLine) : chunks.Pairwise fun a b => a.endLine < b.startLine := by
  induction chunks with
  | nil => exact .nil
  | cons c chunks ih =>
    have hrest := ih next.of_cons fun d hd => ordered d (List.mem_cons_of_mem c hd)
    refine List.pairwise_cons.2 ⟨fun e he => ?_, hrest⟩
    cases chunks with
    | nil => cases he
    | cons d chunks =>
      have hcd := (List.isChain_cons_cons.1 next).1
      have hd := ordered d (by simp)
      rcases List.mem_cons.1 he with rfl | he
      · omega
      · have := (List.pairwise_cons.1 hrest).1 e he
        omega

theorem eq_of_shared {chunks : List Chunk} (next : chunks.IsChain fun a b => b.startLine = a.endLine + 1)
    (ordered : ∀ c ∈ chunks, c.startLine ≤ c.endLine) {c d : Chunk} (hc : c ∈ chunks) (hd : d ∈ chunks) {n : Nat}
    (hcn : c.startLine ≤ n ∧ n ≤ c.endLine) (hdn : d.startLine ≤ n ∧ n ≤ d.endLine) : c = d := by
  by_contra hne
  have hs : chunks.Pairwise fun a b => a.endLine < b.startLine ∨ b.endLine < a.startLine :=
    (separate_of_next next ordered).imp .inl
  have : Std.Symm fun a b : Chunk => a.endLine < b.startLine ∨ b.endLine < a.startLine := ⟨fun _ _ => Or.symm⟩
  have := hs.forall hc hd hne
  omega

/-- Spans, the last one first, that follow one another from line one to line `last`. -/
inductive Stacked : Nat → List Span → Prop where
  | nil : Stacked 0 []
  | cons {last : Nat} {spans : List Span} (s : Span) (below : Stacked last spans)
      (next : s.startLine = last + 1) (ordered : s.startLine ≤ s.endLine) : Stacked s.endLine (s :: spans)

/-- A layout whose spans reach line `last`, or that holds back the blank lines up to there. -/
structure Layout.Reaches (l : Layout) (last : Nat) : Prop where
  stacked : l.pendingBlank = none → Stacked last l.spans
  held : ∀ start, l.pendingBlank = some start → start = 1 ∧ 1 ≤ last ∧ l.spans = []

/-- A layout between two regions. -/
structure Layout.Settled (l : Layout) : Prop where
  stacked : Stacked (l.nextLine - 1) l.spans
  positive : 1 ≤ l.nextLine
  nothingHeld : l.pendingBlank = none

theorem Stacked.eq_zero {last : Nat} (h : Stacked last []) : last = 0 := by
  cases h
  rfl

theorem Stacked.endLine_eq {last : Nat} {s : Span} {spans : List Span} (h : Stacked last (s :: spans)) :
    s.endLine = last := by
  cases h
  rfl

/-- Only the last span changes when a layout is stretched. -/
theorem Stacked.stretch {last stop : Nat} {s : Span} {spans : List Span} (h : Stacked last (s :: spans))
    (hs : last ≤ stop) : Stacked stop ({ s with endLine := stop } :: spans) := by
  cases h with
  | cons _ below next ordered => exact .cons { s with endLine := stop } below next (Nat.le_trans ordered hs)

namespace Layout

variable {lines : Array String} {l : Layout} {last stop : Nat}

theorem reaches_of_settled (h : l.Settled) : l.Reaches (l.nextLine - 1) :=
  ⟨fun _ => h.stacked, fun start hp => by simp [h.nothingHeld] at hp⟩

/-- A span that starts right after what is laid out, with the lines that were held back, goes on top. -/
theorem push_stacked (h : l.Reaches last) (s : Span) (next : s.startLine = last + 1)
    (ordered : s.startLine ≤ s.endLine) : Stacked s.endLine (l.push s).spans := by
  unfold push
  cases hp : l.pendingBlank with
  | none =>
    have hb := h.stacked hp
    exact .cons s hb next ordered
  | some start =>
    obtain ⟨rfl, hl, he⟩ := h.held start hp
    rw [he]
    exact .cons { s with startLine := 1 } .nil rfl (show 1 ≤ s.endLine by omega)

@[simp] theorem pendingBlank_push (s : Span) : (l.push s).pendingBlank = none := rfl

@[simp] theorem nextLine_push (s : Span) : (l.push s).nextLine = l.nextLine := rfl

@[simp] theorem pendingBlank_stretch (f : Nat → Nat) : (l.stretch f).pendingBlank = l.pendingBlank := by
  unfold stretch
  split <;> rfl

@[simp] theorem nextLine_stretch (f : Nat → Nat) : (l.stretch f).nextLine = l.nextLine := by
  unfold stretch
  split <;> rfl

@[simp] theorem nextLine_fill (start : Nat) : (l.fill lines start stop).nextLine = l.nextLine := by
  unfold fill
  split
  · rfl
  · split
    · split <;> simp
    · rfl

/-- Lines that no region claims become a span, or the end of the last span, or are held back. -/
theorem fill_reaches (h : l.Settled) (hs : l.nextLine ≤ stop) :
    (l.fill lines l.nextLine stop).Reaches stop := by
  have hn := h.positive
  have hd : l.nextLine - 1 + 1 = l.nextLine := by omega
  unfold fill
  rw [if_neg (by omega)]
  split
  · cases he : l.spans with
    | nil =>
      have hz := (he ▸ h.stacked).eq_zero
      have hone : l.nextLine = 1 := by omega
      simp only [List.isEmpty_nil, if_true, h.nothingHeld, Option.none_or]
      refine ⟨fun hp => by simp at hp, fun start hp => ?_⟩
      simp only [Option.some.injEq] at hp
      exact ⟨by omega, by omega, rfl⟩
    | cons s spans =>
      have hk : Stacked (l.nextLine - 1) (s :: spans) := he ▸ h.stacked
      simp only [List.isEmpty_cons, Bool.false_eq_true, if_false]
      refine ⟨fun _ => ?_, fun start hp => by simp [h.nothingHeld] at hp⟩
      simp only [stretch, he]
      exact hk.stretch (by omega)
  · have hp := push_stacked (reaches_of_settled h) { startLine := l.nextLine, endLine := stop } hd.symm hs
    exact ⟨fun _ => hp, fun start hq => by simp at hq⟩

theorem fill_to_reaches (lines : Array String) (h : l.Settled) (stop : Nat) (hs : l.nextLine ≤ stop + 1) :
    (l.fill lines l.nextLine stop).Reaches stop := by
  by_cases hlt : stop < l.nextLine
  · have he : stop = l.nextLine - 1 := by omega
    rw [fill, if_pos hlt, he]
    exact reaches_of_settled h
  · exact fill_reaches h (by omega)

/-- A region whose lines are all claimed adds nothing. -/
theorem stretch_swallowed (h : l.Settled) {stop : Nat} (hs : stop < l.nextLine) :
    (l.stretch (max · stop)).spans = l.spans := by
  unfold stretch
  cases he : l.spans with
  | nil => simp [he]
  | cons s spans =>
    have hend := (he ▸ h.stacked : Stacked (l.nextLine - 1) (s :: spans)).endLine_eq
    have hm : max s.endLine stop = s.endLine := by omega
    simp only [hm]

theorem place_settled (h : l.Settled) (r : Region) (hr : r.startLine ≤ r.endLine) :
    (l.place lines r).Settled := by
  have hn := h.positive
  unfold place
  by_cases hlt : r.endLine < max r.startLine l.nextLine
  · have hs : r.endLine < l.nextLine := by omega
    have hm : max l.nextLine (r.endLine + 1) = l.nextLine := by omega
    simp only [hlt, if_true, hm]
    refine ⟨?_, hn, ?_⟩
    · simpa only [stretch_swallowed h hs] using h.stacked
    · simpa using h.nothingHeld
  · simp only [hlt, if_false]
    have hf := fill_to_reaches lines h (max r.startLine l.nextLine - 1) (by omega)
    have hp := push_stacked hf ⟨max r.startLine l.nextLine, r.endLine, some r.name, some r.kind⟩
      (by simp only; omega) (by simp only; omega)
    exact ⟨hp, by simp, rfl⟩

theorem place_nextLine_le (hn : l.nextLine ≤ last + 1) (r : Region) (hr : r.endLine ≤ last) :
    (l.place lines r).nextLine ≤ last + 1 := by
  unfold place
  by_cases hlt : r.endLine < max r.startLine l.nextLine
  · simp only [hlt, if_true]
    omega
  · simp only [hlt, if_false]
    omega

theorem foldl_place_settled (regions : List Region) (h : l.Settled)
    (hr : ∀ r ∈ regions, r.startLine ≤ r.endLine) : (regions.foldl (place lines) l).Settled := by
  induction regions generalizing l with
  | nil => exact h
  | cons r regions ih =>
    exact ih (place_settled h r (hr r (by simp))) fun q hq => hr q (by simp [hq])

theorem foldl_place_nextLine_le (regions : List Region) (hn : l.nextLine ≤ last + 1)
    (hr : ∀ r ∈ regions, r.endLine ≤ last) : (regions.foldl (place lines) l).nextLine ≤ last + 1 := by
  induction regions generalizing l with
  | nil => exact hn
  | cons r regions ih =>
    exact ih (place_nextLine_le hn r (hr r (by simp))) fun q hq => hr q (by simp [hq])

theorem finish_stacked (h : l.Settled) (hn : l.nextLine ≤ last + 1) :
    Stacked last (l.finish lines last).reverse := by
  have hf := fill_to_reaches lines h last hn
  unfold finish
  cases hp : (l.fill lines l.nextLine last).pendingBlank with
  | none => simpa [hp] using hf.stacked hp
  | some start =>
    obtain ⟨rfl, hl, he⟩ := hf.held start hp
    simp only [hp, he, List.reverse_reverse]
    exact .cons { startLine := 1, endLine := last } .nil rfl hl

theorem settled_empty : ({} : Layout).Settled := ⟨.nil, Nat.le_refl 1, rfl⟩

end Layout

/-- The plan of a file covers its lines, whatever its regions are, so long as they lie within it. -/
theorem planSpans_stacked (lines : Array String) (regions : List Region) (lineCount : Nat)
    (hr : ∀ r ∈ regions, r.startLine ≤ r.endLine ∧ r.endLine ≤ lineCount) :
    Stacked lineCount (planSpans lines regions lineCount).reverse := by
  apply Layout.finish_stacked
  · exact Layout.foldl_place_settled regions Layout.settled_empty fun r h => (hr r h).1
  · exact Layout.foldl_place_nextLine_le regions (by simp) fun r h => (hr r h).2

theorem Stacked.head_startLine {last : Nat} {spans : List Span} (h : Stacked last spans) (hl : 1 ≤ last) :
    spans.getLast?.map (·.startLine) = some 1 := by
  induction h with
  | nil => omega
  | @cons last spans s below next ordered ih =>
    cases spans with
    | nil =>
      have hz := below.eq_zero
      simp [next, hz]
    | cons t spans =>
      cases hb : below with
      | cons _ b n o =>
        rw [List.getLast?_cons_cons]
        exact ih (by omega)

theorem Stacked.endLine_head {last : Nat} {spans : List Span} (h : Stacked last spans) (hl : 1 ≤ last) :
    spans.head?.map (·.endLine) = some last := by
  cases h with
  | nil => omega
  | cons s _ _ _ => rfl

theorem Stacked.chain {last : Nat} {spans : List Span} (h : Stacked last spans) :
    spans.IsChain fun a b => a.startLine = b.endLine + 1 := by
  induction h with
  | nil => exact .nil
  | cons s below next ordered ih =>
    cases below with
    | nil => exact .singleton s
    | cons t b n o => exact ih.cons_cons next

theorem Stacked.ordered {last : Nat} {spans : List Span} (h : Stacked last spans) (s : Span) (hs : s ∈ spans) :
    1 ≤ s.startLine ∧ s.startLine ≤ s.endLine ∧ s.endLine ≤ last := by
  induction h with
  | nil => simp at hs
  | cons t below next ordered ih =>
    rcases List.mem_cons.1 hs with rfl | hs
    · omega
    · have := ih hs
      omega

end CodeIndex.Chunk
