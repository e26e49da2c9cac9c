import CodeIndex.Chunk.Declaration

/-!
Regions of a syntax tree lie within the lines of the file. This holds of every tree whose nodes begin no later
than they end, since rows grow with offsets and are cut off at the number of lines.
-/

namespace CodeIndex

namespace Syntax

mutual

/-- Every node of a tree is a stretch of the text: it begins no later than it ends, within the text, and does not
cut a character. -/
def Node.FitsIn (text : String) : Node → Prop
  | .mk _ _ _ start stop cs =>
    start ≤ stop ∧ stop ≤ text.utf8ByteSize ∧ String.Pos.Raw.IsValid text ⟨start⟩ ∧
      String.Pos.Raw.IsValid text ⟨stop⟩ ∧ Node.AllFitIn text cs

def Node.AllFitIn (text : String) : List Node → Prop
  | [] => True
  | c :: rest => c.FitsIn text ∧ Node.AllFitIn text rest

end

theorem Node.FitsIn.ordered {text : String} {n : Node} (h : n.FitsIn text) : n.start ≤ n.stop := by
  cases n with
  | mk kind named field start stop cs =>
    rw [FitsIn] at h
    exact h.1

namespace Source

theorem startsBelow_bounds (starts : Array Nat) (offset lo hi : Nat) (h : lo ≤ hi) :
    lo ≤ startsBelow starts offset lo hi ∧ startsBelow starts offset lo hi ≤ hi := by
  fun_induction startsBelow starts offset lo hi with
  | case1 lo hi hlt _ ih =>
    have := ih (by omega)
    omega
  | case2 lo hi hlt _ ih =>
    have := ih (by omega)
    omega
  | case3 lo hi hlt => omega

/-- The search goes to the right for the larger offset wherever it does so for the smaller one. -/
theorem startsBelow_mono (starts : Array Nat) {a b : Nat} (h : a ≤ b) (lo hi : Nat) (hl : lo ≤ hi) :
    startsBelow starts a lo hi ≤ startsBelow starts b lo hi := by
  fun_induction startsBelow starts a lo hi with
  | case1 lo hi hlt hm ih =>
    rw [startsBelow.eq_def starts b lo hi, if_pos hlt, if_pos (Nat.le_trans hm h)]
    exact ih (by omega)
  | case2 lo hi hlt hm ih =>
    rw [startsBelow.eq_def starts b lo hi, if_pos hlt]
    split
    · have left := (startsBelow_bounds starts a lo ((lo + hi) / 2) (by omega)).2
      have right := (startsBelow_bounds starts b ((lo + hi) / 2 + 1) hi (by omega)).1
      omega
    · exact ih (by omega)
  | case3 lo hi hlt =>
    have hend : startsBelow starts b lo hi = lo := by rw [startsBelow.eq_def, if_neg hlt]
    exact Nat.le_of_eq hend.symm

theorem row_mono (s : Source) {a b : Nat} (h : a ≤ b) : s.row a ≤ s.row b := by
  have := startsBelow_mono s.starts h 0 s.starts.size (Nat.zero_le _)
  unfold row
  omega

end Source

end Syntax

namespace Chunk

open Syntax Text

/-- The lines of a region within a file of `lineCount` lines. -/
def Region.Within (lineCount : Nat) (r : Region) : Prop :=
  1 ≤ r.startLine ∧ r.startLine ≤ r.endLine ∧ r.endLine ≤ lineCount

theorem nodeLines_within (src : Source) (lineCount : Nat) (hl : 1 ≤ lineCount) (n : Node) (hn : n.start ≤ n.stop) :
    1 ≤ (nodeLines src lineCount n).1 ∧ (nodeLines src lineCount n).1 ≤ (nodeLines src lineCount n).2 ∧
      (nodeLines src lineCount n).2 ≤ lineCount := by
  have hrow : n.startRow src ≤ n.endRow src := src.row_mono hn
  simp only [nodeLines]
  split <;> omega

theorem startLine_of_unless {text : String} {row : Nat} {d : Doc}
    (h : (if text.isEmpty then none else some (⟨text, row + 1⟩ : Doc)) = some d) : 1 ≤ d.startLine := by
  split at h
  · cases h
  · rw [Option.some.injEq] at h
    rw [← h]
    exact Nat.le_add_left 1 row

theorem docstring?_startLine {src : Source} {n : Node} {d : Doc} (h : docstring? src n = some d) :
    1 ≤ d.startLine := by
  obtain ⟨body, -, h⟩ := Option.bind_eq_some_iff.1 h
  obtain ⟨first, -, h⟩ := Option.bind_eq_some_iff.1 h
  split at h
  · cases h
  · obtain ⟨string, -, h⟩ := Option.bind_eq_some_iff.1 h
    split at h
    · cases h
    · exact startLine_of_unless h

theorem commentDoc?_startLine {src : Source} {comments : List Node} {d : Doc}
    (h : commentDoc? src comments = some d) : 1 ≤ d.startLine := by
  cases comments with
  | nil => cases h
  | cons first rest => exact startLine_of_unless h

theorem leadingDoc?_startLine {src : Source} {language : Language} {place : Place} {n : Node} {d : Doc}
    (h : leadingDoc? src language place n = some d) : 1 ≤ d.startLine := by
  unfold leadingDoc? at h
  split at h
  · exact docstring?_startLine h
  · split at h
    · exact commentDoc?_startLine h
    · exact commentDoc?_startLine h

namespace Survey

variable {s : Survey} {text : String}

/-- A region begins with its documentation, if that stands above the declaration. -/
theorem regionOf_within (hl : 1 ≤ s.lineCount) {doc : Option Doc} (hd : ∀ d, doc = some d → 1 ≤ d.startLine)
    {n : Node} (hn : n.start ≤ n.stop) : (s.regionOf doc n).Within s.lineCount := by
  obtain ⟨first, ordered, last⟩ := nodeLines_within s.source s.lineCount hl n hn
  cases doc with
  | none => exact ⟨first, ordered, last⟩
  | some d =>
    have hd := hd d rfl
    refine ⟨?_, ?_, last⟩
    · simp only [regionOf, Option.map_some, Option.getD_some]
      omega
    · simp only [regionOf, Option.map_some, Option.getD_some]
      omega

theorem record_within (hl : 1 ≤ s.lineCount) (place : Place) (inside : Bool) {n : Node} (hn : n.start ≤ n.stop)
    {f : Findings} (hf : ∀ r ∈ f.regions, r.Within s.lineCount) :
    ∀ r ∈ (s.record place inside n f).regions, r.Within s.lineCount := by
  intro r hr
  simp only [record] at hr
  split at hr
  · rcases List.mem_cons.1 hr with rfl | hr
    · exact regionOf_within hl (fun d hd => leadingDoc?_startLine hd) hn
    · exact hf r hr
  · exact hf r hr

mutual

theorem below_within (hl : 1 ≤ s.lineCount) (before : List Node) (inside : Bool) (f : Findings)
    (hf : ∀ r ∈ f.regions, r.Within s.lineCount) (n : Node) (hn : n.FitsIn text) :
    ∀ r ∈ (s.below before inside f n).regions, r.Within s.lineCount := by
  cases n with
  | mk kind named field start stop cs =>
    rw [Node.FitsIn] at hn
    rw [below]
    exact among_within hl _ before inside f hf [] cs hn.2.2.2.2

theorem among_within (hl : 1 ≤ s.lineCount) (parent : Node) (beforeParent : List Node) (inside : Bool)
    (f : Findings) (hf : ∀ r ∈ f.regions, r.Within s.lineCount) (passed cs : List Node)
    (hc : Node.AllFitIn text cs) :
    ∀ r ∈ (s.among parent beforeParent inside f passed cs).regions, r.Within s.lineCount := by
  cases cs with
  | nil =>
    rw [among]
    exact hf
  | cons c rest =>
    rw [Node.AllFitIn] at hc
    rw [among]
    apply among_within hl parent beforeParent inside _ _ (c :: passed) rest hc.2
    split
    · exact hf
    · split
      · exact below_within hl passed _ _ (record_within hl _ inside hc.1.ordered hf) c hc.1
      · exact below_within hl passed inside f hf c hc.1

end

theorem declarations_within (hl : 1 ≤ s.lineCount) (root : Node) (hr : root.FitsIn text) :
    ∀ r ∈ (s.declarations root).2, r.Within s.lineCount := by
  intro r h
  exact below_within hl [] false {} (by simp) root hr r (by simpa [declarations] using h)

end Survey

end Chunk

end CodeIndex
