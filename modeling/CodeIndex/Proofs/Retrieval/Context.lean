import CodeIndex.Proofs.Retrieval.Fusion
import CodeIndex.Proofs.Store.Identifiers
import Mathlib.Data.List.Infix

/-!
The block of context read back. Paths, names and contents stand in it as they are, so it tells its chunks apart as
long as none of them holds the markup that ends it: the next attribute after a path and after a name, and after a
content the line that closes the element with the line that opens another.
-/

namespace CodeIndex

open Number

/-- Two texts before the same mark agree, or one of them holds the mark of the other. No part of the mark is found
inside it again, for its first character is not. -/
theorem eq_or_cut {c : Char} {t a b x y : List Char} (hc : c ∉ t)
    (h : a ++ (c :: t ++ x) = b ++ (c :: t ++ y)) :
    (a = b ∧ x = y) ∨ (∃ z, b = a ++ (c :: t ++ z) ∧ x = z ++ (c :: t ++ y)) ∨
      ∃ z, a = b ++ (c :: t ++ z) ∧ y = z ++ (c :: t ++ x) := by
  have hcut : ∀ {a b x y r : List Char}, b = a ++ r → c :: t ++ x = r ++ (c :: t ++ y) →
      (a = b ∧ x = y) ∨ ∃ z, b = a ++ (c :: t ++ z) ∧ x = z ++ (c :: t ++ y) := by
    intro a b x y r hb hx
    cases r with
    | nil => exact .inl ⟨by simpa using hb.symm, by simpa using hx⟩
    | cons d r =>
      simp only [List.cons_append, List.cons.injEq] at hx
      obtain ⟨rfl, hx⟩ := hx
      obtain ⟨z, rfl, hz⟩ | ⟨w, hw, hz⟩ := List.append_eq_append_iff.1 hx
      · exact .inr ⟨z, hb, hz⟩
      · cases w with
        | nil => exact .inr ⟨[], by simpa [hw] using hb, by simpa using hz.symm⟩
        | cons e w =>
          obtain ⟨rfl, -⟩ := List.cons.inj hz
          exact absurd (hw ▸ List.mem_append_right r List.mem_cons_self) hc
  obtain ⟨r, hb, hx⟩ | ⟨r, ha, hy⟩ := List.append_eq_append_iff.1 h
  · exact (hcut hb hx).imp_right .inl
  · rcases hcut ha hy with ⟨hab, hxy⟩ | hz
    · exact .inl ⟨hab.symm, hxy.symm⟩
    · exact .inr (.inr hz)

/-- What ends a value and opens the attribute after it. -/
def nextAttribute (name : String) : String := "\" " ++ name ++ "=\""

theorem toList_nextAttribute (name : String) :
    (nextAttribute name).toList = '"' :: ' ' :: (name.toList ++ ['=', '"']) := by
  simp [nextAttribute, String.toList_append]

/-- Two texts that hold nowhere the attribute after them agree, where no blank is in that attribute's values. -/
theorem eq_of_nextAttribute {name : String} {a b v w x y : List Char} {e : Char} (hq : '"' ∉ name.toList)
    (ha : ¬ (nextAttribute name).toList <:+: a) (hb : ¬ (nextAttribute name).toList <:+: b)
    (he : e ≠ ' ') (hv : ' ' ∉ v) (hw : ' ' ∉ w)
    (h : a ++ ((nextAttribute name).toList ++ (v ++ e :: x)) =
      b ++ ((nextAttribute name).toList ++ (w ++ e :: y))) :
    a = b ∧ v ++ e :: x = w ++ e :: y := by
  rw [toList_nextAttribute] at ha hb h
  have hcut : ∀ {a b v x r z : List Char}, ' ' ∉ v → ¬ '"' :: ' ' :: (name.toList ++ ['=', '"']) <:+: b →
      b = a ++ ('"' :: (' ' :: name.toList ++ ['=']) ++ z) →
      '"' :: (v ++ e :: x) ≠ z ++ ('"' :: (' ' :: name.toList ++ ['=']) ++ r) := by
    intro a b v x r z hv hb hz hx
    cases z with
    | nil =>
      -- the value would begin with a blank
      obtain ⟨-, hx⟩ := List.cons.inj hx
      cases v with
      | nil => exact he (List.cons.inj hx).1
      | cons d v => exact hv ((List.cons.inj hx).1 ▸ List.mem_cons_self)
    | cons d z =>
      obtain ⟨rfl, -⟩ := List.cons.inj hx
      exact hb ⟨a, z, by simp [hz]⟩
  have hq' : '"' ∉ ' ' :: name.toList ++ ['='] := by simp [hq]
  have h : a ++ ('"' :: (' ' :: name.toList ++ ['=']) ++ '"' :: (v ++ e :: x)) =
      b ++ ('"' :: (' ' :: name.toList ++ ['=']) ++ '"' :: (w ++ e :: y)) := by simpa using h
  rcases eq_or_cut hq' h with ⟨hab, hxy⟩ | ⟨z, hz, hx⟩ | ⟨z, hz, hy⟩
  · exact ⟨hab, (List.cons.inj hxy).2⟩
  · exact absurd hx (hcut hv hb hz)
  · exact absurd hy (hcut hw ha hz)

theorem Number.Single.fixed_cases (places : Nat) (x : Single) : x.fixed places = "NaN" ∨
    ∃ sign ∈ ["-", ""], x.fixed places = sign ++ "inf" ∨ ∃ n, x.fixed places = sign ++ placePoint places n := by
  have hsign : (if 0x80000000 ≤ x.bits then "-" else "") ∈ ["-", ""] := by split <;> decide
  by_cases hnan : x.isNaN
  · exact .inl (if_pos hnan)
  · refine .inr ⟨_, hsign, ?_⟩
    by_cases hfinite : x.isFinite
    · exact .inr ⟨_, (if_neg hnan).trans (if_neg (by simp [hfinite]))⟩
    · exact .inl ((if_neg hnan).trans (if_pos (by simp [hfinite])))

/-- A number with decimals is written with digits, a sign and a point, or as one of the names for the rest. -/
theorem Number.Single.notMem_fixed {c : Char} (hc : c.isDigit = false) (hn : c ∉ "-.infNaN".toList) (places : Nat)
    (x : Single) : c ∉ (x.fixed places).toList := by
  have hpart : ∀ {p : String}, p.toList ⊆ "-.infNaN".toList → c ∉ p.toList := fun hp hm => hn (hp hm)
  have hpoint : ∀ n, c ∉ (placePoint places n).toList := by
    intro n hm
    unfold placePoint at hm
    split at hm
    · exact notMem_decimal hc _ hm
    · simp only [String.toList_append, String.toList_ofList, List.mem_append, List.mem_replicate] at hm
      rcases hm with (hm | hm) | ⟨-, rfl⟩ | hm
      · exact notMem_decimal hc _ hm
      · exact hpart (by decide) hm
      · exact absurd hc (by decide)
      · exact Bool.false_ne_true (hc ▸ Nat.isDigit_of_mem_toDigits (by decide) (by decide) hm)
  obtain hx | ⟨sign, hs, hx⟩ := Single.fixed_cases places x
  · exact hx ▸ hpart (by decide)
  have hsign : c ∉ sign.toList := by
    rcases List.mem_pair.1 hs with rfl | rfl <;> exact hpart (by decide)
  obtain hx | ⟨n, hx⟩ := hx <;> rw [hx, String.toList_append, List.mem_append]
  · exact fun hm => hm.elim hsign (hpart (by decide))
  · exact fun hm => hm.elim hsign (hpoint n)

/-- What opens an element, up to the path. -/
def elementStart : String := "  <chunk file=\""

/-- What ends an element after its content. -/
def elementEnd : String := "\n  </chunk>\n"

/-- What a block of context says of a chunk, its score apart. -/
def RetrievedChunk.shown (c : RetrievedChunk) : (String × Nat × Nat) × Option String × String :=
  (c.place, c.symbolName, c.content)

/-- The texts of a chunk hold none of the markup that comes after them. -/
structure RetrievedChunk.Plain (c : RetrievedChunk) : Prop where
  path : ¬ (nextAttribute "lines").toList <:+: c.path.toList
  name : ∀ name ∈ c.symbolName, ¬ (nextAttribute "score").toList <:+: name.toList
  content : ¬ (elementEnd ++ elementStart).toList <:+: c.content.toList

instance (c : RetrievedChunk) : Decidable c.Plain :=
  decidable_of_iff ((¬ (nextAttribute "lines").toList <:+: c.path.toList) ∧
      (∀ name ∈ c.symbolName, ¬ (nextAttribute "score").toList <:+: name.toList) ∧
      ¬ (elementEnd ++ elementStart).toList <:+: c.content.toList)
    ⟨fun h => ⟨h.1, h.2.1, h.2.2⟩, fun h => ⟨h.path, h.name, h.content⟩⟩

/-- An element from its name on, where it has one. -/
def nameTail (name : Option String) (rest : List Char) : List Char :=
  match name with
  | some name => (nextAttribute "name").toList ++ (name.toList ++ ((nextAttribute "score").toList ++ rest))
  | none => (nextAttribute "score").toList ++ rest

/-- What comes after an element. -/
def contextTail (cs : List RetrievedChunk) : List Char :=
  cs.flatMap (fun c => (contextElement c).toList) ++ "</code_context>".toList

theorem contextTail_cons (c : RetrievedChunk) (cs : List RetrievedChunk) :
    contextTail (c :: cs) =
      elementStart.toList ++ (c.path.toList ++ ((nextAttribute "lines").toList ++ ((toString c.startLine).toList ++
        '-' :: ((toString c.endLine).toList ++ nameTail c.symbolName ((c.score.fixed 3).toList ++
          '"' :: ('>' :: '\n' :: (c.content.toList ++ (elementEnd.toList ++ contextTail cs)))))))) := by
  have hcons : contextTail (c :: cs) = (contextElement c).toList ++ contextTail cs := by simp [contextTail]
  rw [hcons]
  unfold contextElement nameTail
  cases c.symbolName <;>
    simp only [nextAttribute, elementStart, elementEnd, String.toList_append, String.reduceToList,
      List.append_assoc, List.cons_append, List.nil_append]

theorem nameTail_eq_cons (name : Option String) (rest : List Char) : ∃ r, nameTail name rest = '"' :: r := by
  cases name <;> exact ⟨_, by rw [nameTail, toList_nextAttribute, List.cons_append]⟩

theorem nameTail_inj {m n : Option String} {v w x y : List Char}
    (hm : ∀ name ∈ m, ¬ (nextAttribute "score").toList <:+: name.toList)
    (hn : ∀ name ∈ n, ¬ (nextAttribute "score").toList <:+: name.toList) (hv : ' ' ∉ v) (hw : ' ' ∉ w)
    (h : nameTail m (v ++ '"' :: x) = nameTail n (w ++ '"' :: y)) : m = n ∧ v ++ '"' :: x = w ++ '"' :: y := by
  have hmixed : ∀ name x y, nameTail none x ≠ nameTail (some name) y := by
    intro name x y h
    simp only [nameTail, toList_nextAttribute, String.reduceToList, List.cons_append, List.cons.injEq] at h
    exact absurd h.2.2.1 (by decide)
  cases m with
  | none =>
    cases n with
    | none => exact ⟨rfl, List.append_cancel_left h⟩
    | some n => exact absurd h (hmixed n _ _)
  | some m =>
    cases n with
    | none => exact absurd h.symm (hmixed m _ _)
    | some n =>
      obtain ⟨hmn, hrest⟩ := eq_of_nextAttribute (by decide) (hm m rfl) (hn n rfl) (by decide) hv hw
        (List.append_cancel_left h)
      exact ⟨congrArg some (String.toList_inj.1 hmn), hrest⟩

theorem toList_elementEnd : elementEnd.toList = '\n' :: ("  </chunk>".toList ++ ['\n']) := rfl

theorem contextTail_cases (cs : List RetrievedChunk) :
    contextTail cs = "</code_context>".toList ∨ ∃ r, contextTail cs = elementStart.toList ++ r := by
  cases cs with
  | nil => exact .inl rfl
  | cons c cs => exact .inr ⟨_, contextTail_cons c cs⟩

/-- Where the end of an element comes again before the end of the block, another element begins at once. -/
theorem elementStart_of_end {cs : List RetrievedChunk} {z y : List Char}
    (h : '\n' :: contextTail cs = z ++ ('\n' :: "  </chunk>".toList ++ y)) :
    ∃ r, z = '\n' :: (elementStart.toList ++ r) := by
  cases z with
  | nil =>
    have h := (List.cons.inj h).2
    obtain hcs | ⟨r, hcs⟩ := contextTail_cases cs <;> rw [hcs] at h <;>
      simp [elementStart, String.reduceToList] at h
  | cons d z =>
    obtain ⟨rfl, hz⟩ := List.cons.inj h
    obtain hcs | ⟨r, hcs⟩ := contextTail_cases cs <;> rw [hcs] at hz
    · have hm : '\n' ∈ "</code_context>".toList := hz ▸ List.mem_append_right z List.mem_cons_self
      exact absurd hm (by decide)
    · obtain ⟨w, hw, -⟩ | ⟨w, hw, hy⟩ := List.append_eq_append_iff.1 hz
      · exact ⟨w, by rw [hw]⟩
      · cases w with
        | nil => exact ⟨[], by rw [hw, List.append_nil, List.append_nil]⟩
        | cons e w =>
          obtain ⟨rfl, -⟩ := List.cons.inj hy
          have hm : '\n' ∈ elementStart.toList := hw ▸ List.mem_append_right z List.mem_cons_self
          exact absurd hm (by decide)

theorem content_inj {a b : List Char} {xs ys : List RetrievedChunk}
    (ha : ¬ (elementEnd ++ elementStart).toList <:+: a) (hb : ¬ (elementEnd ++ elementStart).toList <:+: b)
    (h : a ++ (elementEnd.toList ++ contextTail xs) = b ++ (elementEnd.toList ++ contextTail ys)) :
    a = b ∧ contextTail xs = contextTail ys := by
  have hcut : ∀ {a b y z : List Char} {cs : List RetrievedChunk}, ¬ (elementEnd ++ elementStart).toList <:+: b →
      b = a ++ ('\n' :: "  </chunk>".toList ++ z) →
      '\n' :: contextTail cs ≠ z ++ ('\n' :: "  </chunk>".toList ++ y) := by
    intro a b y z cs hb hz hcs
    obtain ⟨r, rfl⟩ := elementStart_of_end hcs
    refine hb ⟨a, r, ?_⟩
    rw [hz, String.toList_append, toList_elementEnd]
    simp only [List.append_assoc, List.cons_append, List.nil_append]
  rw [toList_elementEnd] at h
  simp only [List.cons_append, List.append_assoc, List.nil_append] at h
  rcases eq_or_cut (by decide) h with ⟨hab, hxy⟩ | ⟨z, hz, hx⟩ | ⟨z, hz, hy⟩
  · exact ⟨hab, (List.cons.inj hxy).2⟩
  · exact absurd hx (hcut hb hz)
  · exact absurd hy (hcut ha hz)

theorem contextElement_inj {c d : RetrievedChunk} {xs ys : List RetrievedChunk} (hc : c.Plain) (hd : d.Plain)
    (h : contextTail (c :: xs) = contextTail (d :: ys)) : c.shown = d.shown ∧ contextTail xs = contextTail ys := by
  rw [contextTail_cons, contextTail_cons] at h
  have hblank : ∀ n : Nat, ' ' ∉ (toString n).toList := notMem_decimal (by decide)
  have hblank' : ∀ x : Single, ' ' ∉ (x.fixed 3).toList := Single.notMem_fixed (by decide) (by decide) 3
  have hquote : ∀ x : Single, '"' ∉ (x.fixed 3).toList := Single.notMem_fixed (by decide) (by decide) 3
  obtain ⟨hpath, h⟩ := eq_of_nextAttribute (by decide) hc.path hd.path (by decide) (hblank _) (hblank _)
    (List.append_cancel_left h)
  have hstart := eq_of_append_cons (notMem_decimal (by decide) _) (notMem_decimal (by decide) _) h
  rw [hstart] at h
  have h := (List.cons.inj (List.append_cancel_left h)).2
  have hend : (toString c.endLine).toList = (toString d.endLine).toList := by
    obtain ⟨r, hr⟩ := nameTail_eq_cons c.symbolName _
    obtain ⟨r', hr'⟩ := nameTail_eq_cons d.symbolName _
    exact eq_of_append_cons (notMem_decimal (by decide) _) (notMem_decimal (by decide) _) (hr ▸ hr' ▸ h)
  rw [hend] at h
  have h := List.append_cancel_left h
  obtain ⟨hname, h⟩ := nameTail_inj hc.name hd.name (hblank' _) (hblank' _) h
  have hscore := eq_of_append_cons (hquote _) (hquote _) h
  rw [hscore] at h
  have h := (List.cons.inj (List.cons.inj (List.cons.inj (List.append_cancel_left h)).2).2).2
  obtain ⟨hcontent, htail⟩ := content_inj hc.content hd.content h
  refine ⟨?_, htail⟩
  simp only [RetrievedChunk.shown, RetrievedChunk.place, String.toList_inj.1 hpath, decimal_inj hstart, decimal_inj hend, hname,
    String.toList_inj.1 hcontent]

theorem contextTail_inj {xs ys : List RetrievedChunk} (hx : ∀ c ∈ xs, c.Plain) (hy : ∀ c ∈ ys, c.Plain)
    (h : contextTail xs = contextTail ys) : xs.map (·.shown) = ys.map (·.shown) := by
  have hopens : ∀ c cs, contextTail (c :: cs) ≠ contextTail [] := fun c cs h => by
    rw [contextTail_cons] at h
    simp [contextTail, elementStart, String.reduceToList] at h
  induction xs generalizing ys with
  | nil =>
    cases ys with
    | nil => rfl
    | cons d ys => exact absurd h.symm (hopens d ys)
  | cons c xs ih =>
    cases ys with
    | nil => exact absurd h (hopens c xs)
    | cons d ys =>
      obtain ⟨hc, hx⟩ := List.forall_mem_cons.1 hx
      obtain ⟨hd, hy⟩ := List.forall_mem_cons.1 hy
      obtain ⟨hshown, htail⟩ := contextElement_inj hc hd h
      rw [List.map_cons, List.map_cons, hshown, ih hx hy htail]

theorem toList_formatContext (cs : List RetrievedChunk) :
    (formatContext cs).toList = if cs.isEmpty then [] else "<code_context>\n".toList ++ contextTail cs := by
  unfold formatContext
  split
  · rfl
  · simp [contextTail, String.toList_append, List.flatMap_map]

/-- Lists of chunks that differ in what they show have different blocks, whatever their scores, as long as no text holds
the markup that comes after it. -/
theorem formatContext_unambiguous {xs ys : List RetrievedChunk} (hx : ∀ c ∈ xs, c.Plain) (hy : ∀ c ∈ ys, c.Plain)
    (hne : xs.map (·.shown) ≠ ys.map (·.shown)) : formatContext xs ≠ formatContext ys := by
  intro h
  have hlist := congrArg String.toList h
  rw [toList_formatContext, toList_formatContext] at hlist
  refine hne ?_
  cases xs with
  | nil =>
    cases ys with
    | nil => rfl
    | cons d ys => simp [String.reduceToList] at hlist
  | cons c xs =>
    cases ys with
    | nil => simp [String.reduceToList] at hlist
    | cons d ys => exact contextTail_inj hx hy (List.append_cancel_left hlist)

/-- A chunk of one line with the score zero. -/
def RetrievedChunk.onLine (path : String) (line : Nat) (symbolName : Option String) (content : String) :
    RetrievedChunk :=
  ⟨path, line, line, symbolName, content, .zero, true, false⟩

open RetrievedChunk in
/-- Code that itself writes the tags of a block is told apart, wherever it is cut into chunks. -/
theorem formatContext_unambiguous_tagged :
    formatContext [onLine "a\"b.rs" 1 (some "to<T> \"x\"") "  </chunk>\n</code_context>"] ≠
      formatContext [onLine "a\"b.rs" 1 (some "to<T> \"x\"") "  </chunk>",
        onLine "a\"b.rs" 2 none "</code_context>"] :=
  formatContext_unambiguous (by decide +kernel) (by decide +kernel) (by decide)

/-- Lists that show different chunks, with equal scores where both have one, and have the same block. -/
def Confused (xs ys : List RetrievedChunk) : Prop :=
  (∀ p ∈ xs.zip ys, p.1.score = p.2.score) ∧ xs.map (·.shown) ≠ ys.map (·.shown) ∧
    formatContext xs = formatContext ys

instance (xs ys : List RetrievedChunk) : Decidable (Confused xs ys) := inferInstanceAs (Decidable (_ ∧ _ ∧ _))

open RetrievedChunk in
/-- Nothing is escaped. A content that goes on like the block itself is read as two chunks, and what a path or a name
holds after such an attribute is read as content. -/
theorem context_ambiguous :
    Confused [onLine "a" 1 none "x", onLine "b" 1 none "y"]
      [onLine "a" 1 none "x\n  </chunk>\n  <chunk file=\"b\" lines=\"1-1\" score=\"0.000\">\ny"] ∧
    Confused [onLine "a" 1 none "b\" lines=\"2-2\" score=\"0.000\">\ny"]
      [onLine "a\" lines=\"1-1\" score=\"0.000\">\nb" 2 none "y"] ∧
    Confused [onLine "a" 1 (some "n") "b\" score=\"0.000\">\ny"]
      [onLine "a" 1 (some "n\" score=\"0.000\">\nb") "y"] := by
  decide +kernel

end CodeIndex
