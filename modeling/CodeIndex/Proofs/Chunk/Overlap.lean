import CodeIndex.Proofs.Chunk.Checked
import CodeIndex.Proofs.Chunk.Seam

/-!
Splitting by a loop that may fail. Differences, quotients, bounds and slices are checked here, and a loop that fails or
does not end has no outcome. It always has one, which is what `splitOversized` gives: windows over the lines of a chunk
that leave none out, each sharing as many lines with the one before it as asked for.
-/

namespace CodeIndex.Chunk

open Text

variable {maxChars overlap window lineCount : Nat} {c : Chunk} {ls : Array String}

/-- The quotient of two numbers, if there is one. -/
def div? (a b : Nat) : Option Nat := if b = 0 then none else some (a / b)

theorem div?_eq {a b : Nat} (h : 1 ≤ b) : div? a b = some (a / b) := if_neg (Nat.ne_of_gt h)

/-- The number next to `n` between two bounds, if they are in order. -/
def clamp? (n low high : Nat) : Option Nat := if low ≤ high then some (max low (min n high)) else none

theorem clamp?_eq {n low high : Nat} (h : low ≤ high) : clamp? n low high = some (max low (min n high)) := if_pos h

/-- The lines from `start` up to `stop`, this one excluded, if they are there. -/
def slice? (ls : Array String) (start stop : Nat) : Option (List String) :=
  if start ≤ stop ∧ stop ≤ ls.size then some (ls.extract start stop).toList else none

/-- The lines of a chunk from `offset` up to `stop` as a piece of it. -/
def piece? (c : Chunk) (ls : Array String) (offset stop index : Nat) : Option Chunk := do
  let content := joinLines (← slice? ls offset stop)
  let endLine ← sub? (c.startLine + stop) 1
  return { c with content, tokens := estimateTokens content, startLine := c.startLine + offset, endLine, index }

def splitWindow? (maxChars overlap chars lineCount : Nat) : Option Nat := do
  let average := max (← div? chars lineCount) 1
  clamp? (← div? maxChars average) (overlap + 1) (max fallbackWindow (overlap + 1))

def numbered (p : Chunk) (index : Nat) : Chunk := { p with index }

/-- Chunks numbered from `first` on. -/
def number (first : Nat) (ps : List Chunk) : List Chunk := (ps.zipIdx first).map fun (p, index) => p.numbered index

@[simp] theorem length_number (first : Nat) (ps : List Chunk) : (number first ps).length = ps.length := by
  simp [number]

theorem number_cons (first : Nat) (p : Chunk) (ps : List Chunk) :
    number first (p :: ps) = p.numbered first :: number (first + 1) ps := rfl

theorem number_append (first : Nat) (ps qs : List Chunk) :
    number first (ps ++ qs) = number first ps ++ number (first + ps.length) qs := by
  simp [number, List.zipIdx_append]

/-- The loop over the windows of a chunk: what is out and the line it has come to, and what is out when it ends. -/
inductive WindowLoop (c : Chunk) (ls : Array String) (window step : Nat) : List Chunk → Nat → List Chunk → Prop
  | last {out : List Chunk} {offset : Nat} {p : Chunk} :
      c.piece? ls offset (min (offset + window) ls.size) out.length = some p →
      min (offset + window) ls.size = ls.size → WindowLoop c ls window step out offset (out ++ [p])
  | next {out result : List Chunk} {offset : Nat} {p : Chunk} :
      c.piece? ls offset (min (offset + window) ls.size) out.length = some p →
      min (offset + window) ls.size ≠ ls.size → WindowLoop c ls window step (out ++ [p]) (offset + step) result →
      WindowLoop c ls window step out offset result

/-- The loop over all chunks: what is out, the chunks that are left, and what is out when it ends. -/
inductive SplitLoop (maxChars overlap : Nat) : List Chunk → List Chunk → List Chunk → Prop
  | nil {out : List Chunk} : SplitLoop maxChars overlap out [] out
  | keep {out chunks result : List Chunk} {c : Chunk} :
      c.content.length ≤ maxChars ∨ (lines c.content).length < 2 →
      SplitLoop maxChars overlap (out ++ [c.numbered out.length]) chunks result →
      SplitLoop maxChars overlap out (c :: chunks) result
  | cut {out mid chunks result : List Chunk} {c : Chunk} {window step : Nat} :
      ¬ (c.content.length ≤ maxChars ∨ (lines c.content).length < 2) →
      splitWindow? maxChars overlap c.content.length (lines c.content).length = some window →
      sub? window overlap = some step → WindowLoop c (lines c.content).toArray window step out 0 mid →
      SplitLoop maxChars overlap mid chunks result → SplitLoop maxChars overlap out (c :: chunks) result

theorem splitWindow?_eq (maxChars overlap chars : Nat) (h : 1 ≤ lineCount) :
    splitWindow? maxChars overlap chars lineCount = some (splitWindow maxChars overlap chars lineCount) := by
  have haverage := div?_eq (a := maxChars) (Nat.le_max_right (chars / lineCount) 1)
  simp only [splitWindow?, div?_eq h, haverage, Option.bind_eq_bind, Option.bind_some]
  exact clamp?_eq (Nat.le_max_right ..)

theorem piece?_eq {offset : Nat} (hw : 1 ≤ window) (ho : offset < ls.size) (index : Nat) :
    c.piece? ls offset (min (offset + window) ls.size) index = some ((c.piece ls offset window).numbered index) := by
  have hs : slice? ls offset (min (offset + window) ls.size) =
      some (ls.extract offset (min (offset + window) ls.size)).toList :=
    if_pos (by omega)
  rw [piece?, hs, sub?_eq (by omega)]
  rfl

section Loop

variable {step offset : Nat} {out result : List Chunk}

theorem windowLoop_last (hw : 1 ≤ window) (ho : offset < ls.size) (h : ls.size ≤ offset + window) :
    WindowLoop c ls window step out offset result ↔
      result = out ++ [(c.piece ls offset window).numbered out.length] := by
  have hp := piece?_eq (c := c) hw ho out.length
  have hstop := Nat.min_eq_right h
  constructor
  · rintro (⟨hp', -⟩ | ⟨-, hne, -⟩)
    · rw [Option.some.inj (hp.symm.trans hp')]
    · exact absurd hstop hne
  · rintro rfl
    exact .last hp hstop

theorem windowLoop_next (hw : 1 ≤ window) (h : offset + window < ls.size) :
    WindowLoop c ls window step out offset result ↔
      WindowLoop c ls window step (out ++ [(c.piece ls offset window).numbered out.length]) (offset + step) result := by
  have hp := piece?_eq (c := c) hw (Nat.lt_of_le_of_lt (Nat.le_add_right ..) h) out.length
  have hstop : min (offset + window) ls.size ≠ ls.size := by omega
  constructor
  · rintro (⟨-, he⟩ | ⟨hp', -, hloop⟩)
    · exact absurd he hstop
    · rwa [Option.some.inj (hp.symm.trans hp')]
  · exact .next hp hstop

end Loop

/-- Only the last window reaches the end. -/
theorem window_stop_lt {i : Nat} (hw : overlap < window) (hi : i + 1 < windowCount window overlap lineCount) :
    i * (window - overlap) + window < lineCount := by
  have hs : 0 < window - overlap := by omega
  have hq : i + 1 ≤ (lineCount - window + (window - overlap) - 1) / (window - overlap) := Nat.lt_succ_iff.1 hi
  have hm := (Nat.le_div_iff_mul_le hs).1 hq
  rw [Nat.succ_mul] at hm
  omega

theorem le_window_stop {i : Nat} (hw : overlap < window) (hi : i + 1 = windowCount window overlap lineCount) :
    lineCount ≤ i * (window - overlap) + window := by
  have hreach : lineCount ≤ _ := le_last_window hw
  rwa [← hi, Nat.add_sub_cancel] at hreach

/-- The loop goes through the windows that are left, however many, and ends. -/
theorem windowLoop_iff (hw : overlap < window) (hl : 1 ≤ ls.size) {i k : Nat}
    (h : i + k + 1 = windowCount window overlap ls.size) (out result : List Chunk) :
    WindowLoop c ls window (window - overlap) out (i * (window - overlap)) result ↔
      result = out ++ number out.length
        ((List.range' i (k + 1)).map fun j => c.piece ls (j * (window - overlap)) window) := by
  induction k generalizing i out with
  | zero => exact windowLoop_last (by omega) (window_offset_lt hw hl (by omega)) (le_window_stop hw h)
  | succ k ih =>
    have hrest := ih (i := i + 1) (by omega) (out ++ [(c.piece ls (i * (window - overlap)) window).numbered out.length])
    rw [Nat.succ_mul, List.length_append, List.length_singleton, List.append_assoc, List.singleton_append] at hrest
    rw [windowLoop_next (by omega) (window_stop_lt hw (by omega)), hrest, List.range'_succ (s := i), List.map_cons,
      number_cons]

/-- The loop from the first line. -/
theorem windowLoop_zero (hw : overlap < window) (hl : 1 ≤ ls.size) (out result : List Chunk) :
    WindowLoop c ls window (window - overlap) out 0 result ↔
      result = out ++ number out.length ((List.range (windowCount window overlap ls.size)).map fun i =>
        c.piece ls (i * (window - overlap)) window) := by
  obtain ⟨k, hk⟩ : ∃ k, windowCount window overlap ls.size = k + 1 := ⟨_, rfl⟩
  have h := windowLoop_iff (c := c) (i := 0) hw hl (by rw [hk, Nat.zero_add]) out result
  rwa [Nat.zero_mul, ← hk, ← List.range_eq_range'] at h

/-- What the loop puts out for a chunk that is too long are its pieces. -/
theorem windowLoop_pieces (h : c.Oversized maxChars) (overlap : Nat) (out result : List Chunk) :
    WindowLoop c (lines c.content).toArray (splitWindow maxChars overlap c.content.length (lines c.content).length)
        (splitWindow maxChars overlap c.content.length (lines c.content).length - overlap) out 0 result ↔
      result = out ++ number out.length (pieces maxChars overlap c) := by
  have hl : 1 ≤ (lines c.content).toArray.size := Nat.le_of_succ_le h.2
  rw [windowLoop_zero (overlap_lt_splitWindow ..) hl, pieces_of_oversized h]
  rfl

theorem not_oversized_iff : ¬ c.Oversized maxChars ↔ c.content.length ≤ maxChars ∨ (lines c.content).length < 2 := by
  unfold Oversized
  omega

theorem splitLoop_cons (maxChars overlap : Nat) (c : Chunk) (chunks out result : List Chunk) :
    SplitLoop maxChars overlap out (c :: chunks) result ↔
      SplitLoop maxChars overlap (out ++ number out.length (pieces maxChars overlap c)) chunks result := by
  by_cases h : c.Oversized maxChars
  · have hlong := mt not_oversized_iff.2 (not_not_intro h)
    have hwindow := splitWindow?_eq maxChars overlap c.content.length (Nat.le_of_succ_le h.2)
    have hstep := sub?_eq (overlap_lt_splitWindow maxChars overlap c.content.length (lines c.content).length).le
    constructor
    · rintro (_ | ⟨hshort, -⟩ | ⟨-, hw, hs, hloop, hrest⟩)
      · exact absurd hshort hlong
      · cases hwindow.symm.trans hw
        cases hstep.symm.trans hs
        rwa [(windowLoop_pieces h overlap out _).1 hloop] at hrest
    · exact .cut hlong hwindow hstep ((windowLoop_pieces h overlap out _).2 rfl)
  · have hshort := not_oversized_iff.1 h
    rw [pieces_of_not_oversized h]
    constructor
    · rintro (_ | ⟨-, hrest⟩ | ⟨hlong, -⟩)
      · exact hrest
      · exact absurd hshort hlong
    · exact .keep hshort

/-- The loop has one outcome, and this is `splitOversized`. -/
theorem splitLoop_iff (chunks : List Chunk) (maxChars overlap : Nat) (result : List Chunk) :
    SplitLoop maxChars overlap [] chunks result ↔ result = splitOversized chunks maxChars overlap := by
  have hloop : ∀ out, SplitLoop maxChars overlap out chunks result ↔
      result = out ++ number out.length (chunks.flatMap (pieces maxChars overlap)) := by
    induction chunks with
    | nil =>
      intro out
      constructor
      · rintro ⟨⟩
        simp [number]
      · rintro rfl
        simpa [number] using SplitLoop.nil
    | cons c chunks ih =>
      intro out
      rw [splitLoop_cons, ih, List.flatMap_cons, number_append, List.append_assoc, List.length_append, length_number]
  exact hloop []

/-- Lines of a list, counted from zero: from `start` up to `stop`, this one excluded. -/
structure Slice where
  start : Nat
  stop : Nat

/-- Slices that reach from the first of `lineCount` lines to the last and leave none out. None of them is longer than
the fallback window, and each begins with the last `overlap` lines of the one before it and goes beyond that one. -/
structure Laid (lineCount overlap : Nat) (slices : List Slice) : Prop where
  first : slices.head?.map (·.start) = some 0
  inside : ∀ s ∈ slices, s.start < s.stop ∧ s.stop ≤ lineCount
  length : ∀ s ∈ slices, s.stop - s.start ≤ fallbackWindow
  next : slices.IsChain fun s t => s.start < t.start ∧ t.start + overlap = s.stop ∧ s.stop < t.stop
  last : slices.getLast?.map (·.stop) = some lineCount

/-- A piece of a chunk whose text is a slice of the chunk's lines. -/
structure Holds (c : Chunk) (s : Slice) (p : Chunk) : Prop where
  content : p.content = joinLines ((lines c.content).extract s.start s.stop)
  startLine : p.startLine = c.startLine + s.start
  endLine : p.endLine = c.startLine + (s.stop - 1)
  tokens : p.tokens = estimateTokens p.content
  symbol : p.symbolName = c.symbolName ∧ p.symbolType = c.symbolType

/-- What becomes of one chunk: it is cut into windows if it is too long, and else only numbered. -/
inductive Splits (maxChars overlap : Nat) (c : Chunk) : List Chunk → Prop
  | cut {slices : List Slice} {ps : List Chunk} : c.Oversized maxChars →
      Laid (lines c.content).length overlap slices → List.Forall₂ c.Holds slices ps → Splits maxChars overlap c ps
  | kept (index : Nat) : ¬ c.Oversized maxChars → Splits maxChars overlap c [c.numbered index]

/-- The slice that is window number `i`. -/
def windowSlice (window overlap lineCount i : Nat) : Slice :=
  ⟨i * (window - overlap), min (i * (window - overlap) + window) lineCount⟩

theorem laid_windows (hw : overlap < window) (hb : window ≤ fallbackWindow) (hl : 1 ≤ lineCount) :
    Laid lineCount overlap
      ((List.range (windowCount window overlap lineCount)).map (windowSlice window overlap lineCount)) := by
  have hmem : ∀ s ∈ (List.range (windowCount window overlap lineCount)).map (windowSlice window overlap lineCount),
      s.start < lineCount ∧ s.stop = min (s.start + window) lineCount := by
    intro s hs
    obtain ⟨i, hi, rfl⟩ := List.mem_map.1 hs
    exact ⟨window_offset_lt hw hl (List.mem_range.1 hi), rfl⟩
  obtain ⟨k, hk⟩ : ∃ k, windowCount window overlap lineCount = k + 1 := ⟨_, rfl⟩
  refine ⟨?_, fun s hs => ?_, fun s hs => ?_, ?_, ?_⟩
  · rw [hk, List.range_succ_eq_map]
    simp [windowSlice]
  · have := hmem s hs
    omega
  · have := hmem s hs
    omega
  · rw [hk, List.isChain_map, List.isChain_range_succ]
    intro i hi
    have hstop : i * (window - overlap) + window < lineCount := window_stop_lt hw (by omega)
    simp only [windowSlice, Nat.succ_eq_add_one, Nat.succ_mul]
    omega
  · have hstop := le_window_stop hw hk.symm
    rw [hk, List.range_succ, List.map_append, List.map_singleton, List.getLast?_concat]
    simp only [windowSlice, Option.map_some, Option.some.injEq]
    omega

theorem splitWindow_le_fallback (h : overlap < fallbackWindow) (maxChars chars lineCount : Nat) :
    splitWindow maxChars overlap chars lineCount ≤ fallbackWindow :=
  Nat.max_le.2 ⟨h, (Nat.min_le_right ..).trans (Nat.max_le.2 ⟨Nat.le_refl _, h⟩)⟩

theorem holds_piece (hw : 1 ≤ window) (hl : 1 ≤ (lines c.content).length) (offset : Nat) :
    c.Holds ⟨offset, min (offset + window) (lines c.content).length⟩
      (c.piece (lines c.content).toArray offset window) where
  content := by simp [piece]
  startLine := rfl
  endLine := by
    simp only [piece, List.size_toArray]
    omega
  tokens := rfl
  symbol := ⟨rfl, rfl⟩

theorem Holds.numbered {s : Slice} {p : Chunk} (h : c.Holds s p) (index : Nat) : c.Holds s (p.numbered index) :=
  ⟨h.content, h.startLine, h.endLine, h.tokens, h.symbol⟩

theorem holds_number {slices : List Slice} {ps : List Chunk} (h : List.Forall₂ c.Holds slices ps) (first : Nat) :
    List.Forall₂ c.Holds slices (number first ps) := by
  induction h generalizing first with
  | nil => exact .nil
  | cons hp _ ih => exact .cons (hp.numbered first) (ih (first + 1))

/-- The pieces of a chunk, wherever their numbers begin. -/
theorem splits_pieces (h : overlap < fallbackWindow) (maxChars first : Nat) (c : Chunk) :
    Splits maxChars overlap c (number first (pieces maxChars overlap c)) := by
  by_cases hc : c.Oversized maxChars
  · have hl : 1 ≤ (lines c.content).length := Nat.le_of_succ_le hc.2
    have hw := overlap_lt_splitWindow maxChars overlap c.content.length (lines c.content).length
    have hb := splitWindow_le_fallback h maxChars c.content.length (lines c.content).length
    refine .cut hc (laid_windows hw hb hl) (holds_number ?_ first)
    rw [pieces_of_oversized hc, List.forall₂_map_left_iff, List.forall₂_map_right_iff, List.size_toArray,
      List.forall₂_same]
    exact fun i _ => holds_piece (by omega) hl _
  · rw [pieces_of_not_oversized hc]
    exact .kept first hc

theorem splits_flatMap (h : overlap < fallbackWindow) (maxChars : Nat) (chunks : List Chunk) (first : Nat) :
    ∃ runs, runs.flatten = number first (chunks.flatMap (pieces maxChars overlap)) ∧
      List.Forall₂ (Splits maxChars overlap) chunks runs := by
  induction chunks generalizing first with
  | nil => exact ⟨[], rfl, .nil⟩
  | cons c chunks ih =>
    obtain ⟨runs, hflat, hruns⟩ := ih (first + (pieces maxChars overlap c).length)
    refine ⟨number first (pieces maxChars overlap c) :: runs, ?_, .cons (splits_pieces h maxChars first c) hruns⟩
    rw [List.flatten_cons, hflat, List.flatMap_cons, number_append]

/-- **Windows**: splitting ends, and no difference, quotient, bound or slice on the way is without a value. What comes
out is numbered from zero on and is, chunk by chunk, the chunk itself if it is short enough or has no two lines, and
else its windows. -/
theorem splitOversized_windows (chunks : List Chunk) (maxChars : Nat) (h : overlap < fallbackWindow) :
    let out := splitOversized chunks maxChars overlap
    (∀ result, SplitLoop maxChars overlap [] chunks result ↔ result = out) ∧
      out.map (·.index) = List.range out.length ∧
      ∃ runs, runs.flatten = out ∧ List.Forall₂ (Splits maxChars overlap) chunks runs :=
  ⟨splitLoop_iff chunks maxChars overlap, index_splitOversized chunks maxChars overlap,
    splits_flatMap h maxChars chunks 0⟩

/-- Four lines of two letters each. -/
def fourLines : Chunk := ⟨"ab\ncd\nef\ngh", 5, 8, 3, some "f", none, 0⟩

/-- The line after `fourLines`. -/
def fifthLine : Chunk := ⟨"ij", 9, 9, 1, none, none, 1⟩

theorem splitOversized_windows_fourLines :
    1 < fallbackWindow ∧
      let out := splitOversized [fourLines, fifthLine] 6 1
      out.map (fun p => (p.content, range p, p.index)) =
          [("ab\ncd\nef", (5, 7), 0), ("ef\ngh", (7, 8), 1), ("ij", (9, 9), 2)] ∧
        SplitLoop 6 1 [] [fourLines, fifthLine] out ∧
        ∃ runs, runs.flatten = out ∧ List.Forall₂ (Splits 6 1) [fourLines, fifthLine] runs := by
  obtain ⟨hloop, -, hruns⟩ := splitOversized_windows [fourLines, fifthLine] 6 (show 1 < fallbackWindow by decide)
  exact ⟨by decide, by decide +kernel, (hloop _).2 rfl, hruns⟩

end CodeIndex.Chunk
