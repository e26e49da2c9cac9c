import CodeIndex.Proofs.Chunk.Seam

/-!
What chunks are called. Regions may overlap, and a line belongs to the first of them that holds it. A region's span
begins at the first of its lines that no earlier region has taken, so it is called after the region that its lines
belong to; lines that belong to no region have a span without a name. Only blank lines go to a neighbour's span.
-/

namespace CodeIndex.Chunk

open Text

/-- Whether a line is one of a region's. -/
def Region.holds (line : Nat) (r : Region) : Bool := decide (r.startLine ≤ line ∧ line ≤ r.endLine)

/-- The region that a line belongs to. -/
def owner? (regions : List Region) (line : Nat) : Option Region := regions.find? (Region.holds line)

/-- A line, counted from one, that holds nothing but white space or lies outside the file. -/
def BlankAt (lines : Array String) (line : Nat) : Prop := ∀ text, lines[line - 1]? = some text → isBlankText text = true

/-- A span that is called after the region that each of its lines belongs to, blank lines apart. -/
def Span.Labelled (lines : Array String) (regions : List Region) (s : Span) : Prop :=
  ∀ line, s.startLine ≤ line → line ≤ s.endLine → ¬ BlankAt lines line →
    s.name = (owner? regions line).map (·.name) ∧ s.kind = (owner? regions line).map (·.kind)

/-- A layout up to line `last` whose spans are labelled; the lines that it holds back are blank. -/
structure Layout.Labelled (lines : Array String) (regions : List Region) (l : Layout) (last : Nat) : Prop where
  spans : ∀ s ∈ l.spans, s.Labelled lines regions
  held : ∀ start, l.pendingBlank = some start → ∀ line, start ≤ line → line ≤ last → BlankAt lines line

variable {lines : Array String} {regions : List Region}

theorem holds_iff {line : Nat} {r : Region} : r.holds line = true ↔ r.startLine ≤ line ∧ line ≤ r.endLine :=
  decide_eq_true_iff

theorem owner?_eq_none {line : Nat} (h : ∀ r ∈ regions, line < r.startLine ∨ r.endLine < line) :
    owner? regions line = none := by
  refine List.find?_eq_none.2 fun r hr hl => ?_
  have := h r hr
  have := holds_iff.1 hl
  omega

theorem owner?_append_cons {done rest : List Region} {r : Region} {line : Nat}
    (hdone : ∀ q ∈ done, q.endLine < line) (hr : r.startLine ≤ line ∧ line ≤ r.endLine) :
    owner? (done ++ r :: rest) line = some r := by
  have hnone : owner? done line = none := owner?_eq_none fun q hq => .inr (hdone q hq)
  unfold owner? at hnone ⊢
  rw [List.find?_append, hnone, Option.none_or]
  exact List.find?_cons_of_pos (holds_iff.2 hr)

theorem blankAt_of_blankBetween {start stop : Nat} (hs : 1 ≤ start) (h : blankBetween lines start stop = true)
    {line : Nat} (hfirst : start ≤ line) (hlast : line ≤ stop) : BlankAt lines line := by
  intro text ht
  obtain ⟨hlt, he⟩ := Array.getElem?_eq_some_iff.1 ht
  have hsize : line - start < (lines.extract (start - 1) stop).size := by
    rw [Array.size_extract]
    omega
  have hblank := Array.all_eq_true.1 h (line - start) hsize
  rw [Array.getElem_extract] at hblank
  have hindex : start - 1 + (line - start) = line - 1 := by omega
  simp only [hindex, he] at hblank
  exact hblank

/-- Lines that belong to no region make a span without a name. -/
theorem Span.labelled_plain {start stop : Nat} (h : ∀ line, start ≤ line → line ≤ stop → owner? regions line = none) :
    Span.Labelled lines regions { startLine := start, endLine := stop } := by
  intro line hfirst hlast _
  rw [h line hfirst hlast]
  exact ⟨rfl, rfl⟩

/-- A span may be given blank lines at its end. -/
theorem Span.Labelled.stretch {s : Span} {stop : Nat} (h : s.Labelled lines regions)
    (hb : ∀ line, s.endLine < line → line ≤ stop → BlankAt lines line) :
    Span.Labelled lines regions { s with endLine := stop } := by
  intro line hfirst hlast hline
  refine h line hfirst ?_ hline
  by_contra hlt
  exact hline (hb line (Nat.lt_of_not_le hlt) hlast)

namespace Layout

variable {l : Layout} {last stop : Nat}

/-- Lines that were held back go to the span that is put on top of them. -/
theorem Labelled.push (h : l.Labelled lines regions last) {s : Span} (hs : s.Labelled lines regions)
    (next : s.startLine = last + 1) : (l.push s).Labelled lines regions s.endLine := by
  refine ⟨fun t ht => ?_, fun start hp => nomatch hp⟩
  rcases List.mem_cons.1 ht with rfl | ht
  · intro line hfirst hlast hline
    refine hs line ?_ hlast hline
    cases hp : l.pendingBlank with
    | none =>
      rw [hp] at hfirst
      exact hfirst
    | some start =>
      rw [hp] at hfirst
      by_contra hlt
      exact hline (h.held start hp line hfirst (by omega))
  · exact h.spans t ht

/-- Lines that belong to no region leave a layout labelled. -/
theorem Labelled.fill (hl : l.Labelled lines regions (l.nextLine - 1)) (h : l.Settled) (hs : l.nextLine ≤ stop + 1)
    (hnone : ∀ line, l.nextLine ≤ line → line ≤ stop → owner? regions line = none) :
    (l.fill lines l.nextLine stop).Labelled lines regions stop := by
  have hpos := h.positive
  have hnext : l.nextLine - 1 + 1 = l.nextLine := Nat.sub_add_cancel hpos
  unfold Layout.fill
  by_cases hlt : stop < l.nextLine
  · rw [if_pos hlt, show stop = l.nextLine - 1 by omega]
    exact hl
  · rw [if_neg hlt]
    by_cases hb : blankBetween lines l.nextLine stop = true
    · have hblank : ∀ line, l.nextLine ≤ line → line ≤ stop → BlankAt lines line :=
        fun line => blankAt_of_blankBetween hpos hb
      rw [if_pos hb]
      cases he : l.spans with
      | nil =>
        simp only [List.isEmpty_nil, if_true, h.nothingHeld, Option.none_or]
        refine ⟨fun s hm => absurd hm List.not_mem_nil, fun start hp => ?_⟩
        cases hp
        exact hblank
      | cons s spans =>
        have hend : s.endLine = l.nextLine - 1 := (he ▸ h.stacked : Stacked (l.nextLine - 1) (s :: spans)).endLine_eq
        have hspans : ∀ t ∈ s :: spans, t.Labelled lines regions := he ▸ hl.spans
        simp only [List.isEmpty_cons, Bool.false_eq_true, if_false, Layout.stretch, he]
        have hheld : ∀ start, l.pendingBlank ≠ some start := fun start hp => by
          rw [h.nothingHeld] at hp
          cases hp
        refine ⟨fun t ht => ?_, fun start hp => absurd hp (hheld start)⟩
        rcases List.mem_cons.1 ht with rfl | ht
        · exact (hspans s List.mem_cons_self).stretch fun line hline => hblank line (by omega)
        · exact hspans t (List.mem_cons_of_mem s ht)
    · rw [if_neg hb]
      exact hl.push (Span.labelled_plain hnone) hnext.symm

/-- A layout under way: the regions in `done` are laid out, and each line up to the next belongs to one of them or to
none at all. -/
structure Laid (lines : Array String) (regions done : List Region) (l : Layout) : Prop where
  settled : l.Settled
  labelled : l.Labelled lines regions (l.nextLine - 1)
  passed : ∀ r ∈ done, r.endLine < l.nextLine

theorem place_swallowed (h : l.Settled) {r : Region} (hr : r.endLine < l.nextLine) : l.place lines r = l := by
  have hm : max l.nextLine (r.endLine + 1) = l.nextLine := by omega
  simp only [Layout.place, if_pos (Nat.lt_of_lt_of_le hr (Nat.le_max_right r.startLine l.nextLine)), hm,
    stretch_swallowed h hr, pendingBlank_stretch]

/-- One more region is laid out; those that are left start no earlier. -/
theorem Laid.place {done rest : List Region} {r : Region} (h : Laid lines (done ++ r :: rest) done l)
    (hr : r.startLine ≤ r.endLine) (hrest : ∀ q ∈ rest, r.startLine ≤ q.startLine) :
    Laid lines (done ++ r :: rest) (done ++ [r]) (l.place lines r) := by
  have hpos := h.settled.positive
  have hsettled : (l.place lines r).Settled := place_settled h.settled r hr
  by_cases hlt : r.endLine < max r.startLine l.nextLine
  · have hs : r.endLine < l.nextLine := by omega
    rw [place_swallowed h.settled hs] at hsettled ⊢
    refine ⟨hsettled, h.labelled, fun q hq => ?_⟩
    rcases List.mem_append.1 hq with hq | hq
    · exact h.passed q hq
    · rw [List.mem_singleton.1 hq]
      exact hs
  · -- the lines before the region are in no other one: those laid out end before, those left start after
    have hgap : ∀ line, l.nextLine ≤ line → line ≤ max r.startLine l.nextLine - 1 →
        owner? (done ++ r :: rest) line = none := by
      intro line hfirst hlast
      have hline : line < r.startLine := by omega
      refine owner?_eq_none fun q hq => ?_
      rcases List.mem_append.1 hq with hq | hq
      · exact .inr (Nat.lt_of_lt_of_le (h.passed q hq) hfirst)
      · rcases List.mem_cons.1 hq with rfl | hq
        · exact .inl hline
        · exact .inl (Nat.lt_of_lt_of_le hline (hrest q hq))
    have hown : Span.Labelled lines (done ++ r :: rest)
        ⟨max r.startLine l.nextLine, r.endLine, some r.name, some r.kind⟩ := by
      intro line hfirst hlast _
      replace hfirst : max r.startLine l.nextLine ≤ line := hfirst
      have hdone : ∀ q ∈ done, q.endLine < line := fun q hq => by
        have := h.passed q hq
        omega
      rw [owner?_append_cons hdone ⟨by omega, hlast⟩]
      exact ⟨rfl, rfl⟩
    have hfill := h.labelled.fill h.settled (by omega) hgap
    have hpush := hfill.push hown (show max r.startLine l.nextLine = max r.startLine l.nextLine - 1 + 1 by omega)
    have hplace : l.place lines r =
        { (l.fill lines l.nextLine (max r.startLine l.nextLine - 1)).push
            ⟨max r.startLine l.nextLine, r.endLine, some r.name, some r.kind⟩ with nextLine := r.endLine + 1 } := if_neg hlt
    rw [hplace] at hsettled ⊢
    refine ⟨hsettled, ⟨hpush.spans, hpush.held⟩, fun q hq => ?_⟩
    rcases List.mem_append.1 hq with hq | hq
    · have := h.passed q hq
      change q.endLine < r.endLine + 1
      omega
    · rw [List.mem_singleton.1 hq]
      exact Nat.lt_succ_self r.endLine

theorem Laid.foldl_place {done rest : List Region} (h : Laid lines (done ++ rest) done l)
    (hr : ∀ r ∈ rest, r.startLine ≤ r.endLine) (sorted : rest.Pairwise fun a b => a.startLine ≤ b.startLine) :
    Laid lines (done ++ rest) (done ++ rest) (rest.foldl (Layout.place lines) l) := by
  induction rest generalizing done l with
  | nil =>
    rw [List.append_nil] at h ⊢
    exact h
  | cons r rest ih =>
    obtain ⟨hfirst, hsorted⟩ := List.pairwise_cons.1 sorted
    have hplaced := h.place (hr r List.mem_cons_self) hfirst
    have hsplit : done ++ r :: rest = done ++ [r] ++ rest := by rw [List.append_assoc, List.singleton_append]
    rw [hsplit] at hplaced ⊢
    exact ih hplaced (fun q hq => hr q (List.mem_cons_of_mem r hq)) hsorted

/-- What is left after the last region belongs to none. -/
theorem Laid.finish (h : Laid lines regions regions l) {lineCount : Nat} (hn : l.nextLine ≤ lineCount + 1) :
    ∀ s ∈ l.finish lines lineCount, s.Labelled lines regions := by
  have hfill := h.labelled.fill h.settled hn fun line hfirst _ =>
    owner?_eq_none fun r hr => .inr (Nat.lt_of_lt_of_le (h.passed r hr) hfirst)
  intro s hs
  unfold Layout.finish at hs
  cases hp : (l.fill lines l.nextLine lineCount).pendingBlank with
  | none =>
    simp only [hp] at hs
    exact hfill.spans s (List.mem_reverse.1 hs)
  | some start =>
    simp only [hp] at hs
    rcases List.mem_cons.1 (List.mem_reverse.1 hs) with rfl | hs
    · exact fun line hfirst hlast hline => absurd (hfill.held start hp line hfirst hlast) hline
    · exact hfill.spans s hs

end Layout

/-- The spans of a plan are labelled, if its regions are in order of their first lines. -/
theorem planSpans_labelled {lineCount : Nat} (hr : ∀ r ∈ regions, r.startLine ≤ r.endLine ∧ r.endLine ≤ lineCount)
    (sorted : regions.Pairwise fun a b => a.startLine ≤ b.startLine) :
    ∀ s ∈ planSpans lines regions lineCount, s.Labelled lines regions := by
  have hempty : Layout.Laid lines ([] ++ regions) [] {} :=
    ⟨Layout.settled_empty, ⟨nofun, nofun⟩, nofun⟩
  exact (hempty.foldl_place (fun r h => (hr r h).1) sorted).finish
    (Layout.foldl_place_nextLine_le regions (by simp) fun r h => (hr r h).2)

/-- Chunks of a plan are called after their spans. -/
theorem labels_render {spans : List Span} {c : Chunk} (hs : ∀ s ∈ spans, s.Labelled lines regions)
    (hc : c ∈ render lines spans) {line : Nat} (hfirst : c.startLine ≤ line) (hlast : line ≤ c.endLine)
    (hline : ¬ BlankAt lines line) :
    c.symbolName = (owner? regions line).map (·.name) ∧ c.symbolType = (owner? regions line).map (·.kind) := by
  obtain ⟨⟨s, i⟩, hm, rfl⟩ := List.mem_map.1 hc
  exact hs s (List.fst_mem_of_mem_zipIdx hm) line hfirst hlast hline

/-- Each line that is not blank is in just one chunk, which is called after the first region that holds the line, and
has no name if there is none. -/
theorem chunks_follow_regions (lines : Array String) (regions : List Region)
    (hr : ∀ r ∈ regions, 1 ≤ r.startLine ∧ r.startLine ≤ r.endLine ∧ r.endLine ≤ lines.size)
    (sorted : regions.Pairwise fun a b => a.startLine ≤ b.startLine) (i : Nat) (hi : i < lines.size)
    (hline : isBlankText lines[i] = false) :
    let chunks := render lines (planSpans lines regions lines.size)
    let first := regions.find? fun r => decide (r.startLine ≤ i + 1 ∧ i + 1 ≤ r.endLine)
    (∃! c, c ∈ chunks ∧ c.startLine ≤ i + 1 ∧ i + 1 ≤ c.endLine) ∧
      ∀ c ∈ chunks, c.startLine ≤ i + 1 → i + 1 ≤ c.endLine →
        c.symbolName = first.map (·.name) ∧ c.symbolType = first.map (·.kind) := by
  intro chunks first
  have hwithin : ∀ r ∈ regions, r.startLine ≤ r.endLine ∧ r.endLine ≤ lines.size := fun r h => (hr r h).2
  have hsize : 1 ≤ lines.toList.length := Nat.zero_lt_of_lt hi
  have hcovers : Covers lines.toList chunks := covers_render hsize (planSpans_stacked lines regions lines.size hwithin)
  refine ⟨?_, fun c hc hfirst hlast => ?_⟩
  · have hseamless : Seamless 1 lines.size chunks := ⟨hcovers.first, hcovers.next.imp fun _ _ => Nat.le_of_eq, hcovers.last⟩
    obtain ⟨c, hc, hin⟩ := hseamless.covers (Nat.succ_pos i) hi
    exact ⟨c, ⟨hc, hin⟩, fun d hd => eq_of_shared hcovers.next hcovers.ordered hd.1 hc hd.2 hin⟩
  · refine labels_render (planSpans_labelled hwithin sorted) hc hfirst hlast fun hblank => ?_
    rw [hblank lines[i] (Array.getElem?_eq_getElem hi)] at hline
    cases hline

/-- A module with a function in it, over a function that begins on the module's last line. -/
def nestedRegions : List Region := [⟨3, 7, "m", "mod_item"⟩, ⟨4, 6, "f", "function_item"⟩, ⟨7, 9, "g", "function_item"⟩]

def nestedLines : Array String := #["use a;", "", "mod", "fn", "", "end", "end", "", "end", "rest"]

theorem chunks_follow_regions_nested :
    let chunks := render nestedLines (planSpans nestedLines nestedRegions nestedLines.size)
    (∀ r ∈ nestedRegions, 1 ≤ r.startLine ∧ r.startLine ≤ r.endLine ∧ r.endLine ≤ nestedLines.size) ∧
      nestedRegions.Pairwise (fun a b => a.startLine ≤ b.startLine) ∧
      (∀ c ∈ chunks, c.startLine ≤ 4 → 4 ≤ c.endLine → c.symbolName = some "m" ∧ c.symbolType = some "mod_item") ∧
      (∀ c ∈ chunks, c.startLine ≤ 9 → 9 ≤ c.endLine → c.symbolName = some "g" ∧ c.symbolType = some "function_item") ∧
      ∀ c ∈ chunks, c.startLine ≤ 10 → 10 ≤ c.endLine → c.symbolName = none ∧ c.symbolType = none := by
  have within : ∀ r ∈ nestedRegions, 1 ≤ r.startLine ∧ r.startLine ≤ r.endLine ∧ r.endLine ≤ nestedLines.size := by
    decide
  have sorted : nestedRegions.Pairwise fun a b => a.startLine ≤ b.startLine := by decide
  have follow := chunks_follow_regions nestedLines nestedRegions within sorted
  exact ⟨within, sorted, (follow 3 (by decide) (by decide)).2, (follow 8 (by decide) (by decide)).2,
    (follow 9 (by decide) (by decide)).2⟩

end CodeIndex.Chunk
