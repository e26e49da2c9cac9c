import CodeIndex.Proofs.Chunk.Split
import Mathlib.Data.List.Range

/-!
Lines of a file that is split. The windows of a chunk follow one another without a gap and reach its last line, except
that the text of a chunk is cut into lines again, which loses an empty line at the end. So the pieces of a file cover
all its lines but the empty ones at the end of a chunk that is split, and hang together if there is no such line.
-/

namespace CodeIndex.Chunk

open Text

variable {maxChars overlap first mid last : Nat} {ps qs : List Chunk} {c : Chunk}

/-- Chunks from one line to another without a gap; they may overlap. -/
structure Seamless (first last : Nat) (ps : List Chunk) : Prop where
  first : ps.head?.map (·.startLine) = some first
  next : ps.IsChain fun a b => b.startLine ≤ a.endLine + 1
  last : ps.getLast?.map (·.endLine) = some last

theorem Seamless.ne_nil (h : Seamless first last ps) : ps ≠ [] := by
  rintro rfl
  cases h.first

theorem Seamless.append (hp : Seamless first mid ps) (hq : Seamless (mid + 1) last qs) :
    Seamless first last (ps ++ qs) where
  first := by rw [List.head?_append_of_ne_nil _ hp.ne_nil, hp.first]
  next := by
    refine List.isChain_append.2 ⟨hp.next, hq.next, fun a ha b hb => ?_⟩
    have he := hp.last
    have hs := hq.first
    rw [Option.mem_def.1 ha] at he
    rw [Option.mem_def.1 hb] at hs
    cases he
    exact Nat.le_of_eq (Option.some.inj hs)
  last := by rw [List.getLast?_append_of_ne_nil _ hq.ne_nil, hq.last]

/-- Chunks without a gap leave out no line. -/
theorem Seamless.covers (h : Seamless first last ps) {n : Nat} (hf : first ≤ n) (hl : n ≤ last) :
    ∃ p ∈ ps, p.startLine ≤ n ∧ n ≤ p.endLine := by
  induction ps generalizing first with
  | nil => exact absurd rfl h.ne_nil
  | cons p ps ih =>
    have hs : p.startLine = first := Option.some.inj h.first
    by_cases hn : n ≤ p.endLine
    · exact ⟨p, List.mem_cons_self, hs ▸ hf, hn⟩
    · cases ps with
      | nil =>
        have he : p.endLine = last := Option.some.inj h.last
        omega
      | cons q ps =>
        obtain ⟨hpq, hrest⟩ := List.isChain_cons_cons.1 h.next
        have hlast := h.last
        rw [List.getLast?_cons_cons] at hlast
        have hq : Seamless q.startLine last (q :: ps) := ⟨rfl, hrest, hlast⟩
        obtain ⟨r, hr, hrn⟩ := ih hq (by omega)
        exact ⟨r, List.mem_cons_of_mem p hr, hrn⟩

/-- The windows reach the last line. -/
theorem le_last_window {window overlap lineCount : Nat} (hw : overlap < window) :
    lineCount ≤ (windowCount window overlap lineCount - 1) * (window - overlap) + window := by
  unfold windowCount
  have hs : 0 < window - overlap := by omega
  have hm := Nat.mod_lt (lineCount - window + (window - overlap) - 1) hs
  have hd := Nat.div_add_mod (lineCount - window + (window - overlap) - 1) (window - overlap)
  rw [Nat.add_sub_cancel, Nat.mul_comm]
  omega

/-- Whether a chunk is longer than allowed and has lines to be split between. -/
def Oversized (maxChars : Nat) (c : Chunk) : Prop := maxChars < c.content.length ∧ 2 ≤ (lines c.content).length

theorem pieces_of_not_oversized (h : ¬ c.Oversized maxChars) (overlap : Nat) : pieces maxChars overlap c = [c] := by
  unfold pieces
  simp only [List.size_toArray]
  refine if_pos ?_
  unfold Oversized at h
  omega

theorem pieces_of_oversized (h : c.Oversized maxChars) (overlap : Nat) :
    pieces maxChars overlap c =
      let ls := (lines c.content).toArray
      let window := splitWindow maxChars overlap c.content.length ls.size
      (List.range (windowCount window overlap ls.size)).map fun i => c.piece ls (i * (window - overlap)) window := by
  unfold pieces
  simp only [List.size_toArray]
  refine if_neg ?_
  have h₁ := h.1
  have h₂ := h.2
  omega

/-- The windows of a chunk that is split follow one another from its first line, as many lines as its text has. -/
theorem seamless_pieces (h : c.Oversized maxChars) (overlap : Nat) :
    Seamless c.startLine (c.startLine + (lines c.content).length - 1) (pieces maxChars overlap c) := by
  have hn := h.2
  rw [pieces_of_oversized h]
  simp only [List.size_toArray]
  generalize hls : lines c.content = ls at hn
  have hw := overlap_lt_splitWindow maxChars overlap c.content.length ls.length
  generalize splitWindow maxChars overlap c.content.length ls.length = window at hw
  have hreach : ls.length ≤ _ := le_last_window hw
  obtain ⟨q, hq⟩ : ∃ q, windowCount window overlap ls.length = q + 1 := ⟨_, rfl⟩
  rw [hq, Nat.add_sub_cancel] at hreach
  refine ⟨?_, ?_, ?_⟩
  · rw [hq, List.range_succ_eq_map]
    simp [piece]
  · rw [hq, List.isChain_map, List.isChain_range_succ]
    intro i hi
    have hlt := window_offset_lt (i := i + 1) hw (Nat.le_of_succ_le hn) (by omega)
    rw [Nat.succ_mul] at hlt
    simp only [piece, List.size_toArray, Nat.succ_eq_add_one, Nat.succ_mul]
    omega
  · rw [hq, List.range_succ, List.map_append, List.map_singleton, List.getLast?_concat]
    simp only [piece, List.size_toArray, Option.map_some, Option.some.injEq]
    omega

theorem pieces_within {p : Chunk} (h : c.Oversized maxChars) (hp : p ∈ pieces maxChars overlap c) :
    c.startLine ≤ p.startLine ∧ p.endLine ≤ c.startLine + (lines c.content).length - 1 := by
  rw [pieces_of_oversized h] at hp
  obtain ⟨i, -, rfl⟩ := List.mem_map.1 hp
  simp only [piece, List.size_toArray]
  omega

/-- Whether splitting a chunk of these lines loses its last line. -/
def LosesEnd (ls : List String) (maxChars : Nat) (c : Chunk) : Prop :=
  c.Oversized maxChars ∧ ls[c.endLine - 1]? = some ""

instance (maxChars : Nat) (c : Chunk) : Decidable (c.Oversized maxChars) := inferInstanceAs (Decidable (_ ∧ _))

instance (ls : List String) (maxChars : Nat) (c : Chunk) : Decidable (c.LosesEnd ls maxChars) :=
  inferInstanceAs (Decidable (_ ∧ _))

/-- Chunks that follow one another, of which some are longer than their text shows. -/
structure Row (ls : List String) (chunks : List Chunk) : Prop where
  next : chunks.IsChain fun a b => b.startLine = a.endLine + 1
  ordered : ∀ c ∈ chunks, c.startLine ≤ c.endLine
  content : ∀ c ∈ chunks, 2 ≤ (lines c.content).length →
    (lines c.content).length + (if ls[c.endLine - 1]? = some "" then 1 else 0) = c.endLine + 1 - c.startLine

variable {ls : List String} {chunks : List Chunk}

theorem row_sentinel (ls : List String) : Row ls [sentinel] where
  next := .singleton _
  ordered := by
    intro c hc
    rw [List.mem_singleton.1 hc]
    exact Nat.le_refl 1
  content := by
    intro c hc
    rw [List.mem_singleton.1 hc]
    exact nofun

theorem Covers.row (h : Covers ls chunks) (hl : ∀ line ∈ ls, '\n' ∉ line.toList) : Row ls chunks :=
  ⟨h.next, h.ordered, fun _ hc _ => h.length_lines hl hc⟩

/-- A chunk that does not lose its end is covered by its pieces. -/
theorem Row.seamless (h : Row ls chunks) (hc : c ∈ chunks) (hk : ¬ c.LosesEnd ls maxChars) (overlap : Nat) :
    Seamless c.startLine c.endLine (pieces maxChars overlap c) := by
  by_cases ho : c.Oversized maxChars
  · have hlen := h.content c hc ho.2
    rw [if_neg fun he => hk ⟨ho, he⟩] at hlen
    have hs := seamless_pieces ho overlap
    have hord := h.ordered c hc
    rwa [show c.startLine + (lines c.content).length - 1 = c.endLine by omega] at hs
  · rw [pieces_of_not_oversized ho]
    exact ⟨rfl, .singleton c, rfl⟩

theorem Row.seamless_but_end (h : Row ls chunks) (hc : c ∈ chunks) (hk : c.LosesEnd ls maxChars) (overlap : Nat) :
    Seamless c.startLine (c.endLine - 1) (pieces maxChars overlap c) ∧
      ∀ p ∈ pieces maxChars overlap c, p.endLine < c.endLine := by
  have hlen := h.content c hc hk.1.2
  rw [if_pos hk.2] at hlen
  have hn := hk.1.2
  have hs := seamless_pieces hk.1 overlap
  rw [show c.startLine + (lines c.content).length - 1 = c.endLine - 1 by omega] at hs
  refine ⟨hs, fun p hp => ?_⟩
  have := (pieces_within hk.1 hp).2
  omega

/-- The lines that the pieces of a chunk cover. -/
theorem Row.pieces_cover (h : Row ls chunks) (hc : c ∈ chunks) (maxChars overlap n : Nat) :
    (∃ p ∈ pieces maxChars overlap c, p.startLine ≤ n ∧ n ≤ p.endLine) ↔
      c.startLine ≤ n ∧ n ≤ c.endLine ∧ ¬ (c.LosesEnd ls maxChars ∧ n = c.endLine) := by
  constructor
  · rintro ⟨p, hp, hs, he⟩
    by_cases ho : c.Oversized maxChars
    · have hw := pieces_within ho hp
      have hlen := h.content c hc ho.2
      have hord := h.ordered c hc
      refine ⟨by omega, by omega, fun hn => ?_⟩
      have := (h.seamless_but_end hc hn.1 overlap).2 p hp
      omega
    · rw [pieces_of_not_oversized ho, List.mem_singleton] at hp
      subst hp
      exact ⟨hs, he, fun hn => ho hn.1.1⟩
  · rintro ⟨hs, he, hn⟩
    by_cases hk : c.LosesEnd ls maxChars
    · have hne : n ≠ c.endLine := fun hn' => hn ⟨hk, hn'⟩
      exact (h.seamless_but_end hc hk overlap).1.covers hs (by omega)
    · exact (h.seamless hc hk overlap).covers hs he

/-- Pieces of chunks without a gap have none if each chunk is covered by its own. -/
theorem Row.seamless_flatMap (h : Row ls chunks) (hf : chunks.head?.map (·.startLine) = some first)
    (hl : chunks.getLast?.map (·.endLine) = some last) (hk : ∀ c ∈ chunks, ¬ c.LosesEnd ls maxChars) (overlap : Nat) :
    Seamless first last (chunks.flatMap (pieces maxChars overlap)) := by
  induction chunks generalizing first with
  | nil => cases hf
  | cons c chunks ih =>
    have hc := h.seamless List.mem_cons_self (hk c List.mem_cons_self) overlap
    have hs : c.startLine = first := Option.some.inj hf
    rw [hs] at hc
    cases chunks with
    | nil =>
      have he : c.endLine = last := Option.some.inj hl
      rw [List.flatMap_singleton, ← he]
      exact hc
    | cons d chunks =>
      rw [List.flatMap_cons]
      refine hc.append (ih ⟨h.next.of_cons, fun e he => h.ordered e (List.mem_cons_of_mem c he), fun e he =>
        h.content e (List.mem_cons_of_mem c he)⟩ ?_ (List.getLast?_cons_cons ▸ hl) fun e he =>
        hk e (List.mem_cons_of_mem c he))
      exact congrArg some (List.isChain_cons_cons.1 h.next).1

/-- The lines that a chunk is of. -/
def range (c : Chunk) : Nat × Nat := (c.startLine, c.endLine)

theorem seamless_iff_ranges :
    Seamless first last ps ↔ (ps.map range).head?.map Prod.fst = some first ∧
      (ps.map range).IsChain (fun a b => b.1 ≤ a.2 + 1) ∧ (ps.map range).getLast?.map Prod.snd = some last := by
  rw [List.head?_map, List.getLast?_map, List.isChain_map, Option.map_map, Option.map_map]
  exact ⟨fun h => ⟨h.first, h.next, h.last⟩, fun h => ⟨h.1, h.2.1, h.2.2⟩⟩

theorem covered_iff_ranges (n : Nat) :
    (∃ p ∈ ps, p.startLine ≤ n ∧ n ≤ p.endLine) ↔ ∃ r ∈ ps.map range, r.1 ≤ n ∧ n ≤ r.2 := by
  simp only [List.mem_map, exists_exists_and_eq_and, range]

/-- The new numbers leave the lines of the pieces alone. -/
theorem ranges_splitOversized (chunks : List Chunk) (maxChars overlap : Nat) :
    (splitOversized chunks maxChars overlap).map range = (chunks.flatMap (pieces maxChars overlap)).map range := by
  have hf : range ∘ (fun p : Chunk × Nat => { p.1 with index := p.2 }) = range ∘ Prod.fst := rfl
  rw [splitOversized, List.map_map, hf, ← List.map_map, List.zipIdx_map_fst]

/-- What splitting leaves of the lines of a row of chunks. -/
theorem Row.split (h : Row ls chunks) (hf : chunks.head?.map (·.startLine) = some 1)
    (hl : chunks.getLast?.map (·.endLine) = some last) (maxChars overlap : Nat) :
    (∀ n, (∃ p ∈ splitOversized chunks maxChars overlap, p.startLine ≤ n ∧ n ≤ p.endLine) ↔
      ∃ c ∈ chunks, c.startLine ≤ n ∧ n ≤ c.endLine ∧ ¬ (c.LosesEnd ls maxChars ∧ n = c.endLine)) ∧
    (Seamless 1 last (splitOversized chunks maxChars overlap) ↔ ∀ c ∈ chunks, ¬ c.LosesEnd ls maxChars) := by
  have hcover : ∀ n, (∃ p ∈ splitOversized chunks maxChars overlap, p.startLine ≤ n ∧ n ≤ p.endLine) ↔
      ∃ c ∈ chunks, c.startLine ≤ n ∧ n ≤ c.endLine ∧ ¬ (c.LosesEnd ls maxChars ∧ n = c.endLine) := by
    intro n
    rw [covered_iff_ranges, ranges_splitOversized, ← covered_iff_ranges]
    constructor
    · rintro ⟨p, hp, hn⟩
      obtain ⟨c, hc, hp⟩ := List.mem_flatMap.1 hp
      exact ⟨c, hc, (h.pieces_cover hc maxChars overlap n).1 ⟨p, hp, hn⟩⟩
    · rintro ⟨c, hc, hn⟩
      obtain ⟨p, hp, hn⟩ := (h.pieces_cover hc maxChars overlap n).2 hn
      exact ⟨p, List.mem_flatMap.2 ⟨c, hc, hp⟩, hn⟩
  refine ⟨hcover, fun hs c hc hk => ?_, fun hk => ?_⟩
  · -- a seamless row would cover the end of the chunk, which is in no other chunk and is lost in its own
    obtain ⟨-, hin, -⟩ := chain_inside (Nat.le_refl 1) hf hl h.next h.ordered
    obtain ⟨hp, ho, he⟩ := hin c hc
    obtain ⟨d, hd, hds, hde, hlost⟩ := (hcover c.endLine).1 (hs.covers (hp.trans ho) he)
    obtain rfl := eq_of_shared h.next h.ordered hc hd ⟨ho, Nat.le_refl _⟩ ⟨hds, hde⟩
    exact hlost ⟨hk, rfl⟩
  · rw [seamless_iff_ranges, ranges_splitOversized, ← seamless_iff_ranges]
    exact h.seamless_flatMap hf hl hk overlap

/-- Splitting the chunks of a file loses just the empty lines at the end of those that are split, so the pieces hang
together from the first line to the last if and only if there is no such line. -/
theorem splitOversized_lines (language : Language) (bytes : ByteArray) (tree : String → Option Syntax.Node)
    (h : ∀ content root, decodeUtf8? bytes = some content → tree content = some root → root.FitsIn content)
    (maxChars overlap : Nat) :
    let ls := lines (decodeLossy bytes)
    let chunks := (parseBytes language bytes tree).chunks
    let out := splitOversized chunks maxChars overlap
    (∀ n, (∃ p ∈ out, p.startLine ≤ n ∧ n ≤ p.endLine) ↔
      ∃ c ∈ chunks, c.startLine ≤ n ∧ n ≤ c.endLine ∧ ¬ (c.LosesEnd ls maxChars ∧ n = c.endLine)) ∧
    ∃ last, chunks.getLast?.map (·.endLine) = some last ∧
      (Seamless 1 last out ↔ ∀ c ∈ chunks, ¬ c.LosesEnd ls maxChars) := by
  intro ls chunks out
  cases hb : isBlankText (decodeLossy bytes) with
  | true =>
    have hc : chunks = [sentinel] := parseBytes_blank language hb tree
    have hrow : Row ls chunks := hc ▸ row_sentinel ls
    have hfirst : chunks.head?.map (·.startLine) = some 1 := by
      rw [hc]
      rfl
    have hlast : chunks.getLast?.map (·.endLine) = some 1 := by
      rw [hc]
      rfl
    have hsplit := hrow.split hfirst hlast maxChars overlap
    exact ⟨hsplit.1, 1, hlast, hsplit.2⟩
  | false =>
    have hc := parseBytes_lines language hb tree h
    have hsplit := (hc.row (newline_not_mem_lines _)).split hc.first hc.last maxChars overlap
    exact ⟨hsplit.1, ls.length, hc.last, hsplit.2⟩

theorem splitOversized_lines_sample :
    let chunks := (parseBytes .rust sampleText.toUTF8 sampleParser).chunks
    (∀ content root, decodeUtf8? sampleText.toUTF8 = some content → sampleParser content = some root →
        root.FitsIn content) ∧
      chunks.map range = [(1, 2), (3, 14)] ∧ Seamless 1 14 (splitOversized chunks 20 1) := by
  have fits : ∀ content root, decodeUtf8? sampleText.toUTF8 = some content → sampleParser content = some root →
      root.FitsIn content := fun content root _ => sampleParser_fitsIn content root
  obtain ⟨-, last, hlast, hseam⟩ := splitOversized_lines .rust sampleText.toUTF8 sampleParser fits 20 1
  have hranges : (parseBytes .rust sampleText.toUTF8 sampleParser).chunks.map range = [(1, 2), (3, 14)] := by
    decide +kernel
  have hend : (parseBytes .rust sampleText.toUTF8 sampleParser).chunks.getLast?.map (·.endLine) = some 14 := by
    rw [show (fun c : Chunk => c.endLine) = Prod.snd ∘ range from rfl, ← Option.map_map, ← List.getLast?_map, hranges]
    rfl
  obtain rfl : last = 14 := Option.some.inj (hlast.symm.trans hend)
  refine ⟨fits, hranges, hseam.2 ?_⟩
  decide +kernel

/-- Two lines of text and two line feeds, the second of which ends an empty line. -/
def trailing : ByteArray := "a\nb\n\n".toUTF8

/-- The third line is lost. -/
theorem trailing_line_lost :
    let chunks := (parseBytes .markdown trailing fun _ => none).chunks
    let out := splitOversized chunks 3 0
    chunks.map range = [(1, 3)] ∧ out.map range = [(1, 1), (2, 2)] ∧ ¬ Seamless 1 3 out := by
  intro chunks out
  have hranges : chunks.map range = [(1, 3)] ∧ out.map range = [(1, 1), (2, 2)] := by decide +kernel
  refine ⟨hranges.1, hranges.2, fun hs => ?_⟩
  have hlast := (seamless_iff_ranges.1 hs).2.2
  rw [hranges.2] at hlast
  cases hlast

end CodeIndex.Chunk
