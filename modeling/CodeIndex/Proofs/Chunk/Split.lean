import CodeIndex.Chunk.Split
import CodeIndex.Proofs.Chunk.Cover
import Mathlib.Algebra.GroupWithZero.Nat
import Mathlib.Algebra.Order.BigOperators.Group.List
import Mathlib.Algebra.Order.Group.Nat

/-!
Numbers of a file that is split. A text has no more lines than bytes, and splitting chunks that cover lines makes no
more pieces than there are lines, none of them beyond the last.
-/

namespace CodeIndex

namespace Text

theorem cutLines_cons {c : Char} {cs p : List Char} {ps : List (List Char)} (hc : c ≠ '\n')
    (h : cutLines cs = p :: ps) : cutLines (c :: cs) = (c :: p) :: ps := by
  simp only [cutLines, List.foldr_cons, hc, if_false] at h ⊢
  rw [h]

theorem length_closeLines_cutLines (cs : List Char) : (closeLines (cutLines cs)).length ≤ cs.length := by
  have hclose : ∀ (p : List Char) (ps : List (List Char)), ps ≠ [] →
      (closeLines (p :: ps)).length = (closeLines ps).length + 1 := by
    intro p ps hps
    obtain ⟨last, hl⟩ : ∃ last, ps.getLast? = some last := ⟨_, List.getLast?_eq_some_getLast hps⟩
    have hl' : (p :: ps).getLast? = some last := by rw [List.getLast?_cons, hl]; rfl
    have hlen : ps.length ≠ 0 := by simpa using hps
    cases last <;> simp only [closeLines, hl, hl', List.length_append, List.length_map, List.length_dropLast,
      List.length_cons, List.length_nil] <;> omega
  induction cs with
  | nil => simp [closeLines]
  | cons c cs ih =>
    by_cases hc : c = '\n'
    · rw [hc, cutLines_newline, hclose _ _ (cutLines_ne_nil cs)]
      exact Nat.succ_le_succ ih
    · obtain ⟨p, ps, hp⟩ := List.exists_cons_of_ne_nil (cutLines_ne_nil cs)
      rw [cutLines_cons hc hp]
      rw [hp] at ih
      cases ps with
      | nil => simp [closeLines]
      | cons q qs =>
        rw [hclose _ _ (List.cons_ne_nil q qs)] at ih ⊢
        exact Nat.le_succ_of_le ih

theorem length_lines_le (s : String) : (lines s).length ≤ s.length := by
  rw [lines, List.length_map, ← String.length_toList]
  exact length_closeLines_cutLines s.toList

theorem length_le_size (s : String) : s.length ≤ s.toByteArray.size := by
  rw [← String.utf8Encode_toList, ← String.length_toList, List.utf8Encode, List.size_toByteArray]
  generalize s.toList = cs
  induction cs with
  | nil => exact Nat.le_refl 0
  | cons c cs ih =>
    have := c.utf8Size_pos
    rw [List.flatMap_cons, List.length_append, String.length_utf8EncodeChar, List.length_cons]
    omega

theorem length_decodeFrom_le (skip : Nat) (out : List Char) (bytes : List UInt8) :
    (decodeFrom skip out bytes).length ≤ out.length + bytes.length := by
  induction bytes generalizing skip out with
  | nil => simp [decodeFrom]
  | cons b rest ih =>
    cases skip with
    | zero =>
      have := ih (decodeOne b rest).2 ((decodeOne b rest).1 :: out)
      rw [List.length_cons] at this ⊢
      simp only [decodeFrom]
      omega
    | succ k =>
      have := ih k out
      rw [List.length_cons]
      simp only [decodeFrom]
      omega

theorem length_toList (bytes : ByteArray) : bytes.toList.length = bytes.size := by
  have loop : ∀ (i : Nat) (out : List UInt8),
      (ByteArray.toList.loop bytes i out).length = out.length + (bytes.size - i) := by
    intro i out
    fun_induction ByteArray.toList.loop bytes i out with
    | case1 i out h ih =>
      rw [ih, List.length_cons]
      omega
    | case2 i out h =>
      rw [List.length_reverse]
      omega
  rw [ByteArray.toList, loop, List.length_nil]
  omega

theorem length_decodeLossy_le (bytes : ByteArray) : (decodeLossy bytes).length ≤ bytes.size := by
  unfold decodeLossy
  split
  · rename_i s h
    unfold decodeUtf8? String.fromUTF8? at h
    split at h
    · cases h
      exact length_le_size _
    · cases h
  · have h := length_decodeFrom_le 0 [] bytes.toList
    rw [← String.length_toList, String.toList_ofList]
    rwa [length_toList, List.length_nil, Nat.zero_add] at h

/-- A file has no more lines than bytes. -/
theorem length_lines_decodeLossy_le (bytes : ByteArray) : (lines (decodeLossy bytes)).length ≤ bytes.size :=
  (length_lines_le _).trans (length_decodeLossy_le bytes)

theorem newline_not_mem_cutLines (cs : List Char) : ∀ p ∈ cutLines cs, '\n' ∉ p := by
  induction cs with
  | nil => simp
  | cons c cs ih =>
    by_cases hc : c = '\n'
    · rw [hc, cutLines_newline]
      simpa using ih
    · obtain ⟨p, ps, hp⟩ := List.exists_cons_of_ne_nil (cutLines_ne_nil cs)
      rw [cutLines_cons hc hp]
      rw [hp] at ih
      intro q hq
      rcases List.mem_cons.1 hq with rfl | hq
      · simp [Ne.symm hc, ih p List.mem_cons_self]
      · exact ih q (List.mem_cons_of_mem _ hq)

theorem mem_of_mem_dropReturn {c : Char} {line : List Char} (h : c ∈ dropReturn line) : c ∈ line := by
  unfold dropReturn at h
  split at h
  · exact List.dropLast_subset _ h
  · exact h

theorem newline_not_mem_lines (s : String) : ∀ line ∈ lines s, '\n' ∉ line.toList := by
  intro line h
  obtain ⟨p, hp, rfl⟩ := List.mem_map.1 h
  rw [String.toList_ofList]
  have hcut := newline_not_mem_cutLines s.toList
  rcases List.eq_nil_or_concat (cutLines s.toList) with he | ⟨front, last, he⟩
  · exact absurd he (cutLines_ne_nil _)
  · rw [he] at hp hcut
    have ended : p ∈ front.map dropReturn → '\n' ∉ p := by
      intro hm hn
      obtain ⟨q, hq, rfl⟩ := List.mem_map.1 hm
      exact hcut q (by simp [hq]) (mem_of_mem_dropReturn hn)
    cases last with
    | nil => exact ended (by simpa [closeLines] using hp)
    | cons c last =>
      rcases List.mem_append.1 (by simpa [closeLines] using hp : p ∈ front.map dropReturn ++ [c :: last]) with hp | hp
      · exact ended hp
      · rw [List.mem_singleton.1 hp]
        exact hcut _ (by simp)

theorem cutLines_append_newline {p : List Char} (hp : '\n' ∉ p) (cs : List Char) :
    cutLines (p ++ '\n' :: cs) = p :: cutLines cs := by
  induction p with
  | nil => exact cutLines_newline cs
  | cons c p ih =>
    obtain ⟨hc, hp⟩ := not_or.1 (List.mem_cons.not.1 hp)
    exact cutLines_cons (Ne.symm hc) (ih hp)

theorem cutLines_of_not_mem {p : List Char} (hp : '\n' ∉ p) : cutLines p = [p] := by
  induction p with
  | nil => rfl
  | cons c p ih =>
    obtain ⟨hc, hp⟩ := not_or.1 (List.mem_cons.not.1 hp)
    exact cutLines_cons (Ne.symm hc) (ih hp)

theorem cutLines_joinLines {ls : List String} (hne : ls ≠ []) (h : ∀ line ∈ ls, '\n' ∉ line.toList) :
    cutLines (joinLines ls).toList = ls.map String.toList := by
  rw [joinLines, String.toList_intercalate]
  induction ls with
  | nil => exact absurd rfl hne
  | cons line ls ih =>
    have hl := h line List.mem_cons_self
    cases ls with
    | nil => simpa using cutLines_of_not_mem hl
    | cons line' ls =>
      have hrest := ih (List.cons_ne_nil _ _) fun l hm => h l (List.mem_cons_of_mem _ hm)
      rw [List.map_cons, List.map_cons, List.intercalate_cons_cons, List.append_assoc]
      exact (cutLines_append_newline hl _).trans (congrArg _ hrest)

/-- Joining lines and cutting again gives as many of them, but for an empty one at the end. -/
theorem length_lines_joinLines {ls : List String} (h : ∀ line ∈ ls, '\n' ∉ line.toList) :
    (lines (joinLines ls)).length + (if ls.getLast? = some "" then 1 else 0) = ls.length := by
  rcases List.eq_nil_or_concat ls with rfl | ⟨front, last, rfl⟩
  · rfl
  · rw [List.concat_eq_append] at h ⊢
    rw [lines, List.length_map, cutLines_joinLines (by simp) h, List.map_append, List.getLast?_concat]
    by_cases hl : last = ""
    · simp [closeLines, hl]
    · obtain ⟨c, cs, hc⟩ := List.exists_cons_of_ne_nil (mt String.toList_eq_nil_iff.1 hl)
      simp [closeLines, hl, hc]

end Text

namespace Chunk

open Text

/-- Lines and index of a piece of a file of so many lines. -/
structure Inside (lineCount : Nat) (c : Chunk) : Prop where
  positive : 1 ≤ c.startLine
  ordered : c.startLine ≤ c.endLine
  last : c.endLine ≤ lineCount

theorem windowCount_le {window overlap lineCount : Nat} (hw : overlap < window) (hl : 1 ≤ lineCount) :
    windowCount window overlap lineCount ≤ lineCount := by
  unfold windowCount
  have hs : 1 ≤ window - overlap := by omega
  have hd := Nat.div_mul_le_self (lineCount - window + (window - overlap) - 1) (window - overlap)
  generalize (lineCount - window + (window - overlap) - 1) / (window - overlap) = q at hd ⊢
  have hq : q * 1 ≤ q * (window - overlap) := Nat.mul_le_mul_left q hs
  rcases Nat.eq_zero_or_pos q with rfl | hpos
  · omega
  · obtain ⟨r, rfl⟩ : ∃ r, q = r + 1 := ⟨q - 1, by omega⟩
    have hr : r * 1 ≤ r * (window - overlap) := Nat.mul_le_mul_left r hs
    rw [Nat.succ_mul] at hd
    omega

theorem window_offset_lt {window overlap lineCount i : Nat} (hw : overlap < window) (hl : 1 ≤ lineCount)
    (hi : i < windowCount window overlap lineCount) : i * (window - overlap) < lineCount := by
  unfold windowCount at hi
  have hd := Nat.div_mul_le_self (lineCount - window + (window - overlap) - 1) (window - overlap)
  generalize (lineCount - window + (window - overlap) - 1) / (window - overlap) = q at hd hi
  have hm : i * (window - overlap) ≤ q * (window - overlap) := Nat.mul_le_mul_right _ (by omega)
  rcases Nat.eq_zero_or_pos q with rfl | hpos
  · omega
  · have : 1 * (window - overlap) ≤ q * (window - overlap) := Nat.mul_le_mul_right _ hpos
    omega

theorem overlap_lt_splitWindow (maxChars overlap chars lineCount : Nat) :
    overlap < splitWindow maxChars overlap chars lineCount :=
  Nat.lt_of_lt_of_le (Nat.lt_succ_self overlap) (Nat.le_max_left ..)

/-- The pieces of a chunk stay among its lines, and are no more than these. -/
theorem pieces_inside {lineCount maxChars overlap : Nat} {c : Chunk} (h : c.Inside lineCount)
    (hc : (lines c.content).length ≤ c.endLine - c.startLine + 1) :
    (pieces maxChars overlap c).length ≤ c.endLine - c.startLine + 1 ∧
      ∀ p ∈ pieces maxChars overlap c, p.Inside lineCount := by
  unfold pieces
  simp only [List.size_toArray]
  split
  · exact ⟨by simp, fun p hp => List.mem_singleton.1 hp ▸ h⟩
  · rename_i hlong
    have hl : 1 ≤ (lines c.content).length := by omega
    have hw := overlap_lt_splitWindow maxChars overlap c.content.length (lines c.content).length
    refine ⟨?_, fun p hp => ?_⟩
    · rw [List.length_map, List.length_range]
      exact (windowCount_le hw hl).trans hc
    · obtain ⟨i, hi, rfl⟩ := List.mem_map.1 hp
      have ho := window_offset_lt hw hl (List.mem_range.1 hi)
      generalize hoff : i * (splitWindow maxChars overlap c.content.length (lines c.content).length - overlap) = offset
        at ho ⊢
      have h₁ := h.positive
      have h₂ := h.ordered
      have h₃ := h.last
      refine ⟨?_, ?_, ?_⟩ <;> simp only [piece, List.size_toArray] <;> omega

theorem index_splitOversized (chunks : List Chunk) (maxChars overlap : Nat) :
    (splitOversized chunks maxChars overlap).map (·.index) =
      List.range (splitOversized chunks maxChars overlap).length := by
  rw [splitOversized, List.map_map, List.length_map, List.length_zipIdx]
  have h : (fun c : Chunk => c.index) ∘ (fun p : Chunk × Nat => { p.1 with index := p.2 }) = Prod.snd := rfl
  rw [h, List.zipIdx_map_snd, List.range_eq_range']

theorem index_lt_of_mem {chunks : List Chunk} {maxChars overlap : Nat} {c : Chunk}
    (h : c ∈ splitOversized chunks maxChars overlap) : c.index < (splitOversized chunks maxChars overlap).length := by
  have hm := List.mem_map_of_mem (f := fun c : Chunk => c.index) h
  rw [index_splitOversized] at hm
  exact List.mem_range.1 hm

theorem splitOversized_inside {chunks : List Chunk} {lineCount maxChars overlap bound : Nat}
    (h : ∀ c ∈ chunks, c.Inside lineCount ∧ (lines c.content).length ≤ c.endLine - c.startLine + 1)
    (hsum : (chunks.map fun c => c.endLine - c.startLine + 1).sum ≤ bound) :
    (splitOversized chunks maxChars overlap).length ≤ bound ∧
      ∀ p ∈ splitOversized chunks maxChars overlap, p.Inside lineCount := by
  refine ⟨?_, fun p hp => ?_⟩
  · rw [splitOversized, List.length_map, List.length_zipIdx, List.length_flatMap]
    refine (List.sum_le_sum fun c hc => ?_).trans hsum
    exact (pieces_inside (h c hc).1 (h c hc).2).1
  · obtain ⟨⟨q, i⟩, hq, rfl⟩ := List.mem_map.1 hp
    obtain ⟨c, hc, hq⟩ := List.mem_flatMap.1 (List.fst_mem_of_mem_zipIdx hq)
    obtain ⟨h₁, h₂, h₃⟩ := (pieces_inside (h c hc).1 (h c hc).2).2 q hq
    exact ⟨h₁, h₂, h₃⟩

/-- Chunks that follow one another from line `first` on, and the lines that they have in all. -/
theorem chain_inside {chunks : List Chunk} {first lineCount : Nat} (hf : 1 ≤ first)
    (hhead : chunks.head?.map (·.startLine) = some first) (hlast : chunks.getLast?.map (·.endLine) = some lineCount)
    (hnext : chunks.IsChain fun a b => b.startLine = a.endLine + 1) (hord : ∀ c ∈ chunks, c.startLine ≤ c.endLine) :
    first ≤ lineCount ∧ (∀ c ∈ chunks, c.Inside lineCount) ∧
      (chunks.map fun c => c.endLine - c.startLine + 1).sum = lineCount + 1 - first := by
  induction chunks generalizing first with
  | nil => simp at hhead
  | cons c chunks ih =>
    have hc := hord c List.mem_cons_self
    have hstart : c.startLine = first := by simpa using hhead
    cases chunks with
    | nil =>
      have hend : c.endLine = lineCount := by simpa using hlast
      refine ⟨by omega, fun d hd => ?_, by simp; omega⟩
      rw [List.mem_singleton.1 hd]
      exact ⟨by omega, hc, by omega⟩
    | cons d chunks =>
      obtain ⟨hcd, hnext⟩ := List.isChain_cons_cons.1 hnext
      obtain ⟨hle, hin, hsum⟩ := ih (show 1 ≤ c.endLine + 1 by omega) (by simpa using hcd)
        (by simpa [List.getLast?_cons_cons] using hlast) hnext fun e he => hord e (List.mem_cons_of_mem c he)
      refine ⟨by omega, fun e he => ?_, ?_⟩
      · rcases List.mem_cons.1 he with rfl | he
        · exact ⟨by omega, hc, by omega⟩
        · exact hin e he
      · rw [List.map_cons, List.sum_cons, hsum]
        omega

/-- Cutting a chunk's content again loses nothing but an empty line at its end. -/
theorem Covers.length_lines {ls : List String} {chunks : List Chunk} (h : Covers ls chunks)
    (hl : ∀ line ∈ ls, '\n' ∉ line.toList) {c : Chunk} (hc : c ∈ chunks) :
    (lines c.content).length + (if ls[c.endLine - 1]? = some "" then 1 else 0) = c.endLine + 1 - c.startLine := by
  obtain ⟨-, hin, -⟩ := chain_inside (Nat.le_refl 1) h.first h.last h.next h.ordered
  obtain ⟨hp, ho, hb⟩ := hin c hc
  have hlen : ((ls.drop (c.startLine - 1)).take (c.endLine - (c.startLine - 1))).length =
      c.endLine + 1 - c.startLine := by
    rw [List.length_take, List.length_drop]
    omega
  have hlast : ((ls.drop (c.startLine - 1)).take (c.endLine - (c.startLine - 1))).getLast? = ls[c.endLine - 1]? := by
    rw [List.getLast?_eq_getElem?, hlen, List.getElem?_take_of_lt (by omega), List.getElem?_drop]
    congr 1
    omega
  rw [h.content c hc, ← hlen, ← hlast]
  exact length_lines_joinLines fun line hm => hl line (List.mem_of_mem_drop (List.mem_of_mem_take hm))

/-- The pieces of a file are no more than its bytes, and neither are the numbers of their lines; an empty file counts
as one byte. -/
theorem pieces_of_file (language : Language) (bytes : ByteArray) (tree : String → Option Syntax.Node)
    (h : ∀ content root, decodeUtf8? bytes = some content → tree content = some root → root.FitsIn content)
    (maxChars overlap : Nat) :
    (splitOversized (parseBytes language bytes tree).chunks maxChars overlap).length ≤ max 1 bytes.size ∧
      ∀ c ∈ splitOversized (parseBytes language bytes tree).chunks maxChars overlap, c.Inside (max 1 bytes.size) := by
  cases hb : isBlankText (decodeLossy bytes) with
  | true =>
    rw [parseBytes_blank language hb]
    refine splitOversized_inside (fun c hc => ?_) (Nat.le_max_left ..)
    rw [List.mem_singleton.1 hc]
    refine ⟨⟨Nat.le_refl 1, Nat.le_refl 1, Nat.le_max_left ..⟩, ?_⟩
    have := length_lines_le sentinel.content
    exact this.trans (Nat.zero_le _)
  | false =>
    have hc := parseBytes_lines language hb tree h
    have hle := length_lines_decodeLossy_le bytes
    obtain ⟨-, hin, hsum⟩ := chain_inside (Nat.le_refl 1) hc.first hc.last hc.next hc.ordered
    refine splitOversized_inside (fun c hm => ⟨⟨(hin c hm).positive, (hin c hm).ordered, ?_⟩, ?_⟩) (by omega)
    · exact (hin c hm).last.trans (hle.trans (Nat.le_max_right ..))
    · have ho := (hin c hm).ordered
      have hlines := hc.length_lines (newline_not_mem_lines _) hm
      omega

end Chunk

end CodeIndex
