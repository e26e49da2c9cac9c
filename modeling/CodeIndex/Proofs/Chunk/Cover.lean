import CodeIndex.Proofs.Chunk.Checked

/-!
Chunks cover the file exactly. Both ways of cutting a text lay spans over its lines and render them, so both
are instances of one theorem on rendered spans; a text of white space is one empty chunk.
-/

namespace CodeIndex

namespace Text

theorem all_cutLines (cs : List Char) : (cutLines cs).all (·.all isBlank) = cs.all isBlank := by
  induction cs with
  | nil => rfl
  | cons c cs ih =>
    simp only [cutLines, List.foldr_cons] at ih ⊢
    split
    · rename_i h
      have hn : isBlank '\n' = true := by decide
      simpa [h, hn] using ih
    · cases hp : cs.foldr _ [[]] with
      | nil => exact absurd hp (cutLines_ne_nil cs)
      | cons p ps =>
        rw [hp] at ih
        simpa [Bool.and_assoc] using congrArg (isBlank c && ·) ih

theorem all_dropReturn (line : List Char) : (dropReturn line).all isBlank = line.all isBlank := by
  unfold dropReturn
  split
  · rename_i h
    obtain ⟨front, rfl⟩ := List.getLast?_eq_some_iff.1 h
    have hr : isBlank '\r' = true := by decide
    simp [hr]
  · rfl

theorem all_closeLines (pieces : List (List Char)) :
    (closeLines pieces).all (·.all isBlank) = pieces.all (·.all isBlank) := by
  rcases List.eq_nil_or_concat pieces with rfl | ⟨front, last, rfl⟩
  · rfl
  · have hf : (front.map dropReturn).all (·.all isBlank) = front.all (·.all isBlank) := by
      rw [List.all_map]
      exact congrArg front.all (funext all_dropReturn)
    cases last with
    | nil => simpa [closeLines] using hf
    | cons c last => simpa [closeLines] using congrArg (· && (c :: last).all isBlank) hf

/-- A text is blank just when all its lines are. -/
theorem all_lines (s : String) : (lines s).all isBlankText = isBlankText s := by
  have h := (all_closeLines (cutLines s.toList)).trans (all_cutLines s.toList)
  rw [lines, List.all_map]
  simpa [isBlankText, Function.comp_def] using h

theorem length_lines_pos {s : String} (h : isBlankText s = false) : 1 ≤ (lines s).length := by
  rw [← all_lines] at h
  cases hl : lines s with
  | nil => simp [hl] at h
  | cons => simp

theorem decodeLossy_of_decodeUtf8 {bytes : ByteArray} {s : String} (h : decodeUtf8? bytes = some s) :
    decodeLossy bytes = s := by
  rw [decodeLossy, h]

end Text

namespace Chunk

open Syntax Text

theorem estimateTokens_bounds (s : String) :
    4 * estimateTokens s < s.length + 4 ∧ s.length ≤ 4 * estimateTokens s := by
  unfold estimateTokens
  omega

theorem render_ranges (lines : Array String) (spans : List Span) :
    (render lines spans).map (fun c => (c.startLine, c.endLine)) = spans.map fun s => (s.startLine, s.endLine) := by
  rw [render, List.map_map]
  have h : (fun c : Chunk => (c.startLine, c.endLine)) ∘
      (fun p : Span × Nat => ofLines lines p.1.startLine p.1.endLine p.1.name p.1.kind p.2) =
      (fun s : Span => (s.startLine, s.endLine)) ∘ Prod.fst := rfl
  rw [h, ← List.map_map, List.zipIdx_map_fst]

theorem render_index (lines : Array String) (spans : List Span) :
    (render lines spans).map (·.index) = List.range spans.length := by
  rw [render, List.map_map]
  have h : (fun c : Chunk => c.index) ∘
      (fun p : Span × Nat => ofLines lines p.1.startLine p.1.endLine p.1.name p.1.kind p.2) = Prod.snd := rfl
  rw [h, List.zipIdx_map_snd, List.range_eq_range']

/-- Spans that follow one another over all lines are rendered to chunks that cover them. -/
theorem covers_render {lines : List String} {spans : List Span} (hl : 1 ≤ lines.length)
    (h : Stacked lines.length spans.reverse) : Covers lines (render lines.toArray spans) := by
  have hr := render_ranges lines.toArray spans
  have hi := render_index lines.toArray spans
  have hlen : (render lines.toArray spans).length = spans.length := by simp [render]
  refine ⟨?_, ?_, ?_, ?_, ?_, ?_, ?_⟩
  · have hf := h.head_startLine hl
    rw [List.getLast?_reverse, ← List.head?_map] at hf
    have := congrArg (fun ranges => (ranges.map Prod.fst).head?) hr
    simpa [Function.comp_def, hf] using this
  · have hf := h.endLine_head hl
    rw [List.head?_reverse, ← List.getLast?_map] at hf
    have := congrArg (fun ranges => (ranges.map Prod.snd).getLast?) hr
    simpa [Function.comp_def, hf] using this
  · have hc := List.isChain_reverse.1 h.chain
    rw [← List.isChain_map (f := fun c : Chunk => (c.startLine, c.endLine)) (R := fun a b => b.1 = a.2 + 1), hr,
      List.isChain_map]
    exact hc
  · intro c hc
    obtain ⟨⟨s, i⟩, hs, rfl⟩ := List.mem_map.1 hc
    exact (h.ordered s (List.mem_reverse.2 (List.fst_mem_of_mem_zipIdx hs))).2.1
  · rw [hi, hlen]
  · intro c hc
    obtain ⟨⟨s, i⟩, -, rfl⟩ := List.mem_map.1 hc
    simp only [ofLines, Array.toList_extract, List.extract_eq_take_drop]
  · intro c hc
    obtain ⟨⟨s, i⟩, -, rfl⟩ := List.mem_map.1 hc
    exact estimateTokens_bounds _

/-- The windows of a text as spans. -/
def windowSpans (window lineCount count : Nat) : List Span :=
  (List.range count).map fun i => { startLine := i * window + 1, endLine := min (i * window + window) lineCount }

theorem lineWindows_eq_render (window : Nat) {content : String} (h : isBlankText content = false) :
    lineWindows window content = render (lines content).toArray
      (windowSpans (max window 1) (lines content).length
        (((lines content).length + max window 1 - 1) / max window 1)) := by
  have hb : (lines content).toArray.all isBlankText = false := by rw [List.all_toArray, all_lines, h]
  unfold lineWindows
  simp only
  rw [if_neg (by rw [hb]; exact Bool.false_ne_true)]
  simp only [List.size_toArray, render, windowSpans]
  apply List.ext_getElem
  · simp
  · intro i hi hj
    simp

theorem windowSpans_stacked {window : Nat} (lineCount : Nat) (hw : 1 ≤ window) (count : Nat)
    (hc : count = 0 ∨ (count - 1) * window < lineCount) :
    Stacked (min (count * window) lineCount) (windowSpans window lineCount count).reverse := by
  induction count with
  | zero => simpa [windowSpans] using Stacked.nil
  | succ count ih =>
    have hlt : count * window < lineCount := by simpa using hc
    have hprev : count = 0 ∨ (count - 1) * window < lineCount := by
      have := Nat.mul_le_mul_right window (Nat.sub_le count 1)
      omega
    have hs := ih hprev
    rw [Nat.min_eq_left (by omega)] at hs
    have he : (count + 1) * window = count * window + window := Nat.succ_mul count window
    rw [windowSpans, List.range_succ, List.map_append, List.reverse_append, he]
    exact .cons { startLine := count * window + 1, endLine := min (count * window + window) lineCount } hs rfl
      (by simp only; omega)

theorem lineWindows_covers (window : Nat) {content : String} (h : isBlankText content = false) :
    Covers (lines content) (lineWindows window content) := by
  have hl := length_lines_pos h
  have hw : 1 ≤ max window 1 := Nat.le_max_right window 1
  rw [lineWindows_eq_render window h]
  apply covers_render hl
  generalize hcount : ((lines content).length + max window 1 - 1) / max window 1 = count
  have hlast : (lines content).length ≤ count * max window 1 := by
    have := Nat.lt_div_mul_add (a := (lines content).length + max window 1 - 1) hw
    rw [hcount] at this
    omega
  have hs := windowSpans_stacked (lines content).length hw count (by
    rcases Nat.eq_zero_or_pos count with h | h
    · exact .inl h
    · exact .inr (window_start_lt hw (by rw [hcount]; omega)))
  rwa [Nat.min_eq_right hlast] at hs

theorem lineWindows_blank (window : Nat) {content : String} (h : isBlankText content = true) :
    lineWindows window content = [sentinel] := by
  have hb : (lines content).toArray.all isBlankText = true := by rw [List.all_toArray, all_lines, h]
  unfold lineWindows
  simp only
  rw [if_pos hb]

theorem ofTree_covers (language : Language) {content : String} (h : isBlankText content = false) {root : Node}
    (hr : root.FitsIn content) : Covers (lines content) (ofTree language content root).chunks := by
  have hl := length_lines_pos h
  have hm : max (lines content).toArray.size 1 = (lines content).length := by simp; omega
  unfold ofTree
  simp only [hm]
  apply covers_render hl
  apply planSpans_stacked
  intro r h
  exact (Survey.declarations_within (s := ⟨_, language, _⟩) hl root hr r (List.mem_mergeSort.1 h)).2

theorem isEmpty_eq_false {content : String} (h : isBlankText content = false) : content.isEmpty = false := by
  cases he : content.isEmpty with
  | false => rfl
  | true =>
    rw [String.isEmpty_iff] at he
    subst he
    exact absurd h (by decide)

theorem parse_covers (language : Language) {content : String} (h : isBlankText content = false)
    (tree : Option Node) (hr : ∀ root, tree = some root → root.FitsIn content) :
    Covers (lines content) (parse language content tree).chunks := by
  have hw : ∀ reason, Covers (lines content) (fallBack content reason).chunks := fun _ =>
    lineWindows_covers fallbackWindow h
  unfold parse
  simp only [isEmpty_eq_false h, h, Bool.false_eq_true, if_false]
  cases guard? content with
  | some reason => exact hw reason
  | none =>
    by_cases hg : language.hasGrammar
    · cases tree with
      | none => simpa [structural, hg] using hw _
      | some root =>
        by_cases he : root.isError
        · simpa [structural, hg, he] using hw _
        · simp only [structural, hg, he, Bool.not_true, Bool.false_eq_true, if_false]
          split
          · exact hw _
          · exact ofTree_covers language h (hr root rfl)
    · simpa [hg] using hw _

theorem parse_blank (language : Language) {content : String} (h : isBlankText content = true) (tree : Option Node) :
    (parse language content tree).chunks = [sentinel] := by
  unfold parse
  simp only [h, if_true]
  split <;> rfl

theorem parseBytes_blank (language : Language) {bytes : ByteArray} (h : isBlankText (decodeLossy bytes) = true)
    (tree : String → Option Node) : (parseBytes language bytes tree).chunks = [sentinel] := by
  unfold parseBytes
  cases hd : decodeUtf8? bytes with
  | none => exact lineWindows_blank fallbackWindow h
  | some content =>
    rw [decodeLossy_of_decodeUtf8 hd] at h
    exact parse_blank language h (tree content)

theorem parseBytes_lines (language : Language) {bytes : ByteArray} (h : isBlankText (decodeLossy bytes) = false)
    (tree : String → Option Node)
    (hr : ∀ content root, decodeUtf8? bytes = some content → tree content = some root → root.FitsIn content) :
    Covers (lines (decodeLossy bytes)) (parseBytes language bytes tree).chunks := by
  unfold parseBytes
  cases hd : decodeUtf8? bytes with
  | none => exact lineWindows_covers fallbackWindow h
  | some content =>
    rw [decodeLossy_of_decodeUtf8 hd] at h ⊢
    exact parse_covers language h (tree content) fun root => hr content root hd

/-- Every file has chunks. One of white space has a single chunk without content; the chunks of any other cover its
lines, and no subtraction on the way to them goes below zero. -/
theorem parseBytes_covers (language : Language) (bytes : ByteArray) (tree : String → Option Node)
    (h : ∀ content root, decodeUtf8? bytes = some content → tree content = some root → root.FitsIn content) :
    (parseBytes language bytes tree).chunks ≠ [] ∧
      (isBlankText (decodeLossy bytes) = true → (parseBytes language bytes tree).chunks = [sentinel]) ∧
      (isBlankText (decodeLossy bytes) = false →
        Covers (lines (decodeLossy bytes)) (parseBytes language bytes tree).chunks) ∧
      parseBytes? language bytes tree = some (parseBytes language bytes tree) := by
  have hblank : isBlankText (decodeLossy bytes) = true → (parseBytes language bytes tree).chunks = [sentinel] :=
    fun hb => parseBytes_blank language hb tree
  have hlines := fun hb => parseBytes_lines language hb tree h
  refine ⟨?_, hblank, hlines, parseBytes?_eq language bytes tree h⟩
  intro he
  cases hb : isBlankText (decodeLossy bytes) with
  | true => simp [hblank hb] at he
  | false =>
    have := (hlines hb).first
    simp [he] at this

/-- An import, and a function of eleven lines under its documentation. -/
def sampleText : String := "use a;\n\n/// Adds.\nfn add() \x7b\n\n\n\n\n\n\n\n\n\n\x7d\n"

def sampleTree : Node :=
  .mk "source_file" true none 0 40 [
    .mk "use_declaration" true none 0 6 [],
    .mk "line_comment" true none 8 18 [],
    .mk "function_item" true none 18 39 [.mk "identifier" true (some .name) 21 24 []]]

def sampleParser (text : String) : Option Node := if text = sampleText then some sampleTree else none

theorem sampleParser_fitsIn (text : String) (root : Node) (h : sampleParser text = some root) : root.FitsIn text := by
  unfold sampleParser at h
  split at h
  · rename_i ht
    cases h
    rw [ht]
    simp only [sampleTree, Node.FitsIn, Node.AllFitIn]
    decide
  · cases h

theorem decode_sampleText : decodeUtf8? sampleText.toUTF8 = some sampleText := by
  rw [decodeUtf8?, String.fromUTF8?]
  exact dif_pos sampleText.isValidUTF8

theorem parseBytes_covers_sample :
    (∀ content root, decodeUtf8? sampleText.toUTF8 = some content → sampleParser content = some root →
        root.FitsIn content) ∧
      sampleParser sampleText = some sampleTree ∧
      Covers (lines sampleText) (parseBytes .rust sampleText.toUTF8 sampleParser).chunks ∧
      parseBytes? .rust sampleText.toUTF8 sampleParser = some (parseBytes .rust sampleText.toUTF8 sampleParser) := by
  have fits : ∀ content root, decodeUtf8? sampleText.toUTF8 = some content → sampleParser content = some root →
      root.FitsIn content := fun content root _ => sampleParser_fitsIn content root
  obtain ⟨-, -, covers, checked⟩ := parseBytes_covers .rust sampleText.toUTF8 sampleParser fits
  rw [decodeLossy_of_decodeUtf8 decode_sampleText] at covers
  exact ⟨fits, by simp [sampleParser], covers (by decide), checked⟩

end Chunk

end CodeIndex
