import CodeIndex.Chunk.Parse
import CodeIndex.Proofs.Chunk.Layout
import CodeIndex.Proofs.Chunk.Survey

/-!
Cutting a file with subtraction that may fail. On unsigned numbers a difference below zero has no value, so here
every subtraction and every start of a slice is checked. The checked course never fails on a well-formed tree,
and it gives what the unchecked one gives.
-/

namespace CodeIndex.Chunk

open Syntax Text

/-- The difference of two numbers, if it is one. -/
def sub? (a b : Nat) : Option Nat := if b ≤ a then some (a - b) else none

theorem sub?_eq {a b : Nat} (h : b ≤ a) : sub? a b = some (a - b) := if_pos h

def nodeLines? (src : Source) (lineCount : Nat) (n : Node) : Option (Nat × Nat) := do
  let first := n.startRow src
  let last := n.endRow src
  let last ← if src.column n.stop = 0 ∧ first < last then sub? last 1 else some last
  return (min (first + 1) lineCount, min (last + 1) lineCount)

namespace Survey

def isLarge? (s : Survey) (n : Node) : Option Bool := do
  let (start, stop) ← nodeLines? s.source s.lineCount n
  let lines ← sub? stop start
  return decide (largeLines < lines + 1) || decide (largeChars < (n.text s.source).length)

mutual

def below? (s : Survey) (before : List Node) (inside : Bool) (f : Findings) : Node → Option Findings
  | .mk kind named field start stop cs =>
    among? s (Node.mk kind named field start stop cs) before inside f [] cs

def among? (s : Survey) (parent : Node) (beforeParent : List Node) (inside : Bool) (f : Findings)
    (passed : List Node) : List Node → Option Findings
  | [] => some f
  | c :: rest => do
    let f ←
      if !c.named then some f
      else if s.isChunkable c then do
        let large ← s.isLarge? c
        below? s passed (inside || large) (s.record ⟨parent, beforeParent, passed⟩ inside c f) c
      else below? s passed inside f c
    among? s parent beforeParent inside f (c :: passed) rest

end

end Survey

def blankBetween? (lines : Array String) (start stop : Nat) : Option Bool :=
  (sub? start 1).map fun first => (lines.extract first stop).all isBlankText

namespace Layout

def fill? (lines : Array String) (l : Layout) (start stop : Nat) : Option Layout :=
  if stop < start then some l
  else (blankBetween? lines start stop).map fun blank =>
    if blank then
      if l.spans.isEmpty then { l with pendingBlank := l.pendingBlank.or (some start) }
      else l.stretch fun _ => stop
    else l.push { startLine := start, endLine := stop }

def place? (lines : Array String) (l : Layout) (r : Region) : Option Layout := do
  let start := max r.startLine l.nextLine
  if r.endLine < start then
    return { l.stretch (max · r.endLine) with nextLine := max l.nextLine (r.endLine + 1) }
  else
    let stop ← sub? start 1
    let l := (← l.fill? lines l.nextLine stop).push ⟨start, r.endLine, some r.name, some r.kind⟩
    return { l with nextLine := r.endLine + 1 }

def finish? (lines : Array String) (l : Layout) (lineCount : Nat) : Option (List Span) := do
  let l ← l.fill? lines l.nextLine lineCount
  return match l.pendingBlank with
    | some start => (({ startLine := start, endLine := lineCount } : Span) :: l.spans).reverse
    | none => l.spans.reverse

end Layout

def planSpans? (lines : Array String) (regions : List Region) (lineCount : Nat) : Option (List Span) := do
  (← regions.foldlM (Layout.place? lines) {}).finish? lines lineCount

def ofLines? (lines : Array String) (start stop : Nat) (name kind : Option String) (index : Nat) : Option Chunk := do
  let content := joinLines (lines.extract (← sub? start 1) stop).toList
  return ⟨content, start, stop, estimateTokens content, name, kind, index⟩

def render? (lines : Array String) (spans : List Span) : Option (List Chunk) :=
  spans.zipIdx.mapM fun (s, i) => ofLines? lines s.startLine s.endLine s.name s.kind i

/-- Windows end as many lines after their start as they hold, less one. -/
def lineWindows? (window : Nat) (content : String) : Option (List Chunk) :=
  let window := max window 1
  let lines := (lines content).toArray
  if lines.all isBlankText then some [sentinel]
  else (List.range ((lines.size + window - 1) / window)).mapM fun i => do
    let size := (lines.extract (i * window) (i * window + window)).size
    ofLines? lines (i * window + 1) (← sub? (i * window + 1 + size) 1) none none i

def ofTree? (language : Language) (content : String) (root : Node) : Option Outline := do
  let src := Source.ofString content
  let lines := (lines content).toArray
  let lineCount := max lines.size 1
  let f ← Survey.below? ⟨src, language, lineCount⟩ [] false {} root
  let regions := f.regions.reverse.mergeSort fun a b => decide (a.startLine ≤ b.startLine)
  let chunks ← render? lines (← planSpans? lines regions lineCount)
  return { chunks, symbols := f.symbols.reverse, xrefs := references src language root }

def structural? (language : Language) (content : String) (tree : Option Node) : Option (Except ParseError Outline) :=
  if !language.hasGrammar then some (.error (.unsupportedLanguage language))
  else match tree with
    | none => some (.error .noTree)
    | some root => if root.isError then some (.error .errorRoot) else (ofTree? language content root).map .ok

def fallBack? (content : String) (reason : Fallback) : Option Outline := do
  return { chunks := ← lineWindows? fallbackWindow content, fallback := some reason }

def parse? (language : Language) (content : String) (tree : Option Node) : Option Outline :=
  if content.isEmpty then some { chunks := [sentinel], fallback := some .empty }
  else if isBlankText content then some { chunks := [sentinel], fallback := some .whitespaceOnly }
  else match guard? content with
    | some reason => fallBack? content reason
    | none =>
      if !language.hasGrammar then fallBack? content .noGrammar
      else do
        match ← structural? language content tree with
        | .error e => fallBack? content (.parseFailed e.message)
        | .ok outline =>
          if outline.chunks.isEmpty then fallBack? content (.parseFailed "no chunks produced") else some outline

/-- The outline of a file, by subtraction that may fail. -/
def parseBytes? (language : Language) (bytes : ByteArray) (tree : String → Option Node) : Option Outline :=
  match decodeUtf8? bytes with
  | some content => parse? language content (tree content)
  | none => fallBack? (decodeLossy bytes) .notUtf8

theorem nodeLines?_eq (src : Source) (lineCount : Nat) (n : Node) :
    nodeLines? src lineCount n = some (nodeLines src lineCount n) := by
  unfold nodeLines? nodeLines
  by_cases h : src.column n.stop = 0 ∧ n.startRow src < n.endRow src
  · have hs := sub?_eq (show 1 ≤ n.endRow src by omega)
    simp only [h, and_self, if_true, hs]
    rfl
  · simp only [h, if_false]
    rfl

namespace Survey

variable {s : Survey} {text : String}

theorem isLarge?_eq (hl : 1 ≤ s.lineCount) {n : Node} (hn : n.start ≤ n.stop) :
    s.isLarge? n = some (s.isLarge n) := by
  have hs := sub?_eq (nodeLines_within s.source s.lineCount hl n hn).2.1
  simp only [isLarge?, nodeLines?_eq, Option.bind_eq_bind, Option.bind_some, hs]
  rfl

mutual

theorem below?_eq (hl : 1 ≤ s.lineCount) (before : List Node) (inside : Bool) (f : Findings) (n : Node)
    (hn : n.FitsIn text) : s.below? before inside f n = some (s.below before inside f n) := by
  cases n with
  | mk kind named field start stop cs =>
    rw [Node.FitsIn] at hn
    rw [below?, below]
    exact among?_eq hl _ before inside f [] cs hn.2.2.2.2

theorem among?_eq (hl : 1 ≤ s.lineCount) (parent : Node) (beforeParent : List Node) (inside : Bool) (f : Findings)
    (passed cs : List Node) (hc : Node.AllFitIn text cs) :
    s.among? parent beforeParent inside f passed cs = some (s.among parent beforeParent inside f passed cs) := by
  cases cs with
  | nil => rw [among?, among]
  | cons c rest =>
    rw [Node.AllFitIn] at hc
    rw [among?, among, isLarge?_eq hl hc.1.ordered]
    simp only [Option.bind_eq_bind, Option.bind_some, below?_eq hl _ _ _ c hc.1]
    by_cases hnamed : c.named
    · by_cases hk : s.isChunkable c
      · simp only [hnamed, hk, Bool.not_true, Bool.false_eq_true, if_true, if_false]
        exact among?_eq hl parent beforeParent inside _ (c :: passed) rest hc.2
      · simp only [hnamed, hk, Bool.not_true, Bool.false_eq_true, if_false]
        exact among?_eq hl parent beforeParent inside _ (c :: passed) rest hc.2
    · simp only [hnamed, Bool.not_false, if_true]
      exact among?_eq hl parent beforeParent inside f (c :: passed) rest hc.2

end

end Survey

theorem blankBetween?_eq (lines : Array String) {start : Nat} (h : 1 ≤ start) (stop : Nat) :
    blankBetween? lines start stop = some (blankBetween lines start stop) := by
  rw [blankBetween?, sub?_eq h]
  rfl

namespace Layout

variable {lines : Array String} {l : Layout}

theorem fill?_eq {start : Nat} (h : 1 ≤ start) (stop : Nat) :
    l.fill? lines start stop = some (l.fill lines start stop) := by
  unfold fill? fill
  split
  · rfl
  · rw [blankBetween?_eq lines h]
    rfl

theorem place?_eq (h : 1 ≤ l.nextLine) (r : Region) : l.place? lines r = some (l.place lines r) := by
  unfold place? place
  by_cases hlt : r.endLine < max r.startLine l.nextLine
  · simp only [hlt, if_true]
    rfl
  · have hs := sub?_eq (show 1 ≤ max r.startLine l.nextLine by omega)
    simp only [hlt, if_false, hs, fill?_eq h, Option.bind_eq_bind, Option.bind_some]
    rfl

theorem finish?_eq (h : 1 ≤ l.nextLine) (lineCount : Nat) :
    l.finish? lines lineCount = some (l.finish lines lineCount) := by
  rw [finish?, fill?_eq h]
  rfl

theorem foldlM_place?_eq (regions : List Region) (h : l.Settled) (hr : ∀ r ∈ regions, r.startLine ≤ r.endLine) :
    regions.foldlM (place? lines) l = some (regions.foldl (place lines) l) := by
  induction regions generalizing l with
  | nil => rfl
  | cons r regions ih =>
    rw [List.foldlM_cons, place?_eq h.positive]
    exact ih (place_settled h r (hr r (by simp))) fun q hq => hr q (by simp [hq])

end Layout

theorem planSpans?_eq (lines : Array String) (regions : List Region) (lineCount : Nat)
    (hr : ∀ r ∈ regions, r.startLine ≤ r.endLine) :
    planSpans? lines regions lineCount = some (planSpans lines regions lineCount) := by
  rw [planSpans?, Layout.foldlM_place?_eq regions Layout.settled_empty hr]
  exact Layout.finish?_eq (Layout.foldl_place_settled regions Layout.settled_empty hr).positive lineCount

theorem ofLines?_eq (lines : Array String) {start : Nat} (h : 1 ≤ start) (stop : Nat) (name kind : Option String)
    (index : Nat) : ofLines? lines start stop name kind index = some (ofLines lines start stop name kind index) := by
  rw [ofLines?, sub?_eq h]
  rfl

/-- Mapping by a function that never fails on the list. -/
theorem mapM_eq_some_map {f : α → Option β} {g : α → β} (xs : List α) (h : ∀ x ∈ xs, f x = some (g x)) :
    xs.mapM f = some (xs.map g) := by
  induction xs with
  | nil => rfl
  | cons x xs ih =>
    rw [List.mapM_cons, h x (by simp), ih fun y hy => h y (by simp [hy])]
    rfl

theorem render?_eq (lines : Array String) (spans : List Span) (h : ∀ s ∈ spans, 1 ≤ s.startLine) :
    render? lines spans = some (render lines spans) := by
  apply mapM_eq_some_map
  intro ⟨s, i⟩ hs
  exact ofLines?_eq lines (h s (List.fst_mem_of_mem_zipIdx hs)) _ _ _ _

/-- Windows start within the file. -/
theorem window_start_lt {i window size : Nat} (hw : 1 ≤ window) (hi : i < (size + window - 1) / window) :
    i * window < size := by
  have hd := (Nat.lt_div_iff_mul_lt hw).1 hi
  omega

theorem lineWindows?_eq (window : Nat) (content : String) :
    lineWindows? window content = some (lineWindows window content) := by
  unfold lineWindows? lineWindows
  simp only
  split
  · rfl
  · apply mapM_eq_some_map
    intro i hi
    have hlt := window_start_lt (Nat.le_max_right window 1) (List.mem_range.1 hi)
    simp only [Array.size_extract]
    rw [sub?_eq (by omega), Option.bind_eq_bind, Option.bind_some, ofLines?_eq _ (by omega)]
    congr 2
    omega

theorem ofTree?_eq (language : Language) (content : String) {root : Node} {text : String} (h : root.FitsIn text) :
    ofTree? language content root = some (ofTree language content root) := by
  let survey : Survey := ⟨Source.ofString content, language, max (lines content).toArray.size 1⟩
  have hl : 1 ≤ survey.lineCount := Nat.le_max_right _ 1
  let regions := (survey.declarations root).2.mergeSort fun a b => decide (a.startLine ≤ b.startLine)
  have hr : ∀ r ∈ regions, r.Within survey.lineCount := fun r hr =>
    Survey.declarations_within hl root h r (List.mem_mergeSort.1 hr)
  have hb := Survey.below?_eq hl [] false {} root h
  have hp := planSpans?_eq (lines content).toArray regions survey.lineCount fun r h => (hr r h).2.1
  have hs := planSpans_stacked (lines content).toArray regions survey.lineCount fun r h => (hr r h).2
  have hv := render?_eq (lines content).toArray (planSpans (lines content).toArray regions survey.lineCount)
    fun s h => (hs.ordered s (List.mem_reverse.2 h)).1
  simp only [Survey.declarations, survey, regions] at hb hp hv
  simp only [ofTree?, hb, hp, hv, Option.bind_eq_bind, Option.bind_some]
  rfl

theorem fallBack?_eq (content : String) (reason : Fallback) :
    fallBack? content reason = some (fallBack content reason) := by
  rw [fallBack?, lineWindows?_eq]
  rfl

theorem structural?_eq (language : Language) (content : String) (tree : Option Node)
    (h : ∀ root, tree = some root → root.FitsIn content) :
    structural? language content tree = some (structural language content tree) := by
  unfold structural? structural
  split
  · rfl
  · cases tree with
    | none => rfl
    | some root =>
      simp only
      split
      · rfl
      · rw [ofTree?_eq language content (h root rfl)]
        rfl

theorem parse?_eq (language : Language) (content : String) (tree : Option Node)
    (h : ∀ root, tree = some root → root.FitsIn content) :
    parse? language content tree = some (parse language content tree) := by
  unfold parse? parse
  simp only [fallBack?_eq, structural?_eq language content tree h, Option.bind_eq_bind, Option.bind_some]
  split
  · rfl
  · split
    · rfl
    · cases guard? content with
      | some reason => rfl
      | none =>
        simp only
        split
        · rfl
        · cases structural language content tree with
          | error e => rfl
          | ok outline =>
            simp only
            split <;> rfl

/-- No subtraction on the way from bytes to chunks goes below zero. -/
theorem parseBytes?_eq (language : Language) (bytes : ByteArray) (tree : String → Option Node)
    (h : ∀ content root, decodeUtf8? bytes = some content → tree content = some root → root.FitsIn content) :
    parseBytes? language bytes tree = some (parseBytes language bytes tree) := by
  unfold parseBytes? parseBytes
  cases hd : decodeUtf8? bytes with
  | none => exact fallBack?_eq _ _
  | some content => exact parse?_eq language content (tree content) fun root => h content root hd

end CodeIndex.Chunk
