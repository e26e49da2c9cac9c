import CodeIndex.Embedding.Hashing
import Mathlib.Data.List.SplitBy

/-!
What the tokens of a text are made of. A text that is put together at a break has the tokens of its two sides. The parts
of an identifier are cut out of it at its underscores and, where there are none, at a capital that follows a small
letter or a digit.
-/

namespace CodeIndex

namespace Text

variable {p : Char → Bool}

/-- What the two sides of a separator hold stays apart. -/
theorem fields_append {c : Char} (hc : p c = true) (xs ys : List Char) :
    fields p (xs ++ c :: ys) = fields p xs ++ fields p ys := by
  rw [fields, List.splitOnP_append_cons xs ys hc, List.filter_append]
  rfl

theorem fields_of_ne_nil {xs : List Char} (hne : xs ≠ []) (h : ∀ c ∈ xs, p c = false) : fields p xs = [xs] := by
  rw [fields, List.splitOnP_eq_singleton h]
  simpa using hne

theorem isLowerCase_of_ascii {c : Char} (h : c.toNat < 128) : isLowerCase c = c.isLower := if_pos h

theorem isUpperCase_of_ascii {c : Char} (h : c.toNat < 128) : isUpperCase c = c.isUpper := if_pos h

theorem lowerFrom_of_ascii {cs : List Char} (h : ∀ c ∈ cs, c.toNat < 128) (before : Bool) (out : List Char) :
    lowerFrom before out cs = out.reverse ++ cs.map Char.toLower := by
  induction cs generalizing before out with
  | nil => simp [lowerFrom]
  | cons c cs ih =>
    rw [lowerFrom, if_pos (h c List.mem_cons_self), ih fun d hd => h d (List.mem_cons_of_mem c hd)]
    simp

theorem lowerChars_of_ascii {cs : List Char} (h : ∀ c ∈ cs, c.toNat < 128) : lowerChars cs = cs.map Char.toLower :=
  lowerFrom_of_ascii h false []

/-- Lower case neither makes an underscore nor takes one away. -/
theorem toLower_eq_underscore {c : Char} : c.toLower = '_' ↔ c = '_' := by
  unfold Char.toLower
  split
  · rename_i h
    have hlow : 65 ≤ c.val.toNat := UInt32.le_iff_toNat_le.1 h.1
    have hhigh : c.val.toNat ≤ 90 := UInt32.le_iff_toNat_le.1 h.2
    have hval : (c.val + ('a'.val - 'A'.val)).toNat = c.val.toNat + 32 := by
      rw [UInt32.toNat_add]
      exact Nat.mod_eq_of_lt (show c.val.toNat + 32 < 2 ^ 32 by omega)
    constructor
    · intro he
      have hsum : c.val.toNat + 32 = 95 := hval.symm.trans (congrArg (fun d : Char => d.val.toNat) he)
      omega
    · rintro rfl
      exact absurd hhigh (by decide)
  · exact Iff.rfl

end Text

namespace Embedding

open Text

/-- Whether a capital follows a small letter or a digit. -/
def isHump (a b : Char) : Bool := (a.isLower || a.isDigit) && b.isUpper

/-- A part of a word, and the underscores before it. -/
structure Cut where
  gap : List Char
  part : List Char

def Cut.text (r : Cut) : List Char := r.gap ++ r.part

/-- A word as its cuts and the underscores behind them. No part holds an underscore or a place where a capital follows a
small letter or a digit, and between two of them there is always the one or the other. -/
structure Divides (word : List Char) (cuts : List Cut) (rest : List Char) : Prop where
  text : cuts.flatMap Cut.text ++ rest = word
  gaps : ∀ r ∈ cuts, ∀ c ∈ r.gap, c = '_'
  rest : ∀ c ∈ rest, c = '_'
  parts : ∀ r ∈ cuts, r.part ≠ [] ∧ '_' ∉ r.part ∧ r.part.IsChain fun a b => isHump a b = false
  meets : cuts.IsChain fun r s => s.gap ≠ [] ∨ ∃ ha hb, isHump (r.part.getLast ha) (s.part.head hb) = true

theorem splitPiece_cons_eq {cs : List Char} (h : ∀ c ∈ cs, c.toNat < 128) {b : Char} (hb : b.toNat < 128)
    (current : List Char) (parts : List (List Char)) :
    splitPiece (isLowerCase b || b.isDigit) (b :: current) parts cs =
      List.splitBy.loop (fun a c => !isHump a c) cs b current parts := by
  induction cs generalizing b current parts with
  | nil => rfl
  | cons c cs ih =>
    have hc := h c List.mem_cons_self
    have hcs : ∀ d ∈ cs, d.toNat < 128 := fun d hd => h d (List.mem_cons_of_mem c hd)
    have hcut : (isUpperCase c && (isLowerCase b || b.isDigit) && !(b :: current).isEmpty) = isHump b c := by
      rw [isUpperCase_of_ascii hc, isLowerCase_of_ascii hb, isHump, Bool.and_comm c.isUpper]
      simp
    rw [splitPiece, List.splitBy.loop]
    simp only [hcut]
    cases isHump b c with
    | true => exact ih hcs hc [] _
    | false => exact ih hcs hc (b :: current) parts

/-- A piece is cut at its humps. -/
theorem splitPiece_eq {cs : List Char} (h : ∀ c ∈ cs, c.toNat < 128) :
    splitPiece false [] [] cs = cs.splitBy fun a b => !isHump a b := by
  cases cs with
  | nil => rfl
  | cons c cs =>
    rw [splitPiece, Bool.and_false, Bool.false_and]
    exact splitPiece_cons_eq (fun d hd => h d (List.mem_cons_of_mem c hd)) (h c List.mem_cons_self) [] []

/-- Parts that follow one another, the first of them behind `gap`. -/
def cutsOf (gap : List Char) : List (List Char) → List Cut
  | [] => []
  | part :: parts => ⟨gap, part⟩ :: parts.map (⟨[], ·⟩)

theorem map_part_cutsOf (gap : List Char) (parts : List (List Char)) : (cutsOf gap parts).map Cut.part = parts := by
  cases parts with
  | nil => rfl
  | cons part parts => simp [cutsOf, Function.comp_def]

theorem flatMap_text_cutsOf {gap : List Char} {parts : List (List Char)} (h : parts ≠ []) :
    (cutsOf gap parts).flatMap Cut.text = gap ++ parts.flatten := by
  cases parts with
  | nil => exact absurd rfl h
  | cons part parts => simp [cutsOf, Cut.text, List.flatMap_map, List.flatMap_id']

theorem gap_of_mem_cutsOf {gap : List Char} {parts : List (List Char)} {r : Cut} (h : r ∈ cutsOf gap parts) :
    r.gap = gap ∨ r.gap = [] := by
  cases parts with
  | nil => exact absurd h List.not_mem_nil
  | cons part parts =>
    rcases List.mem_cons.1 h with rfl | hr
    · exact .inl rfl
    · obtain ⟨q, -, rfl⟩ := List.mem_map.1 hr
      exact .inr rfl

/-- A piece behind a gap, cut at its humps. -/
theorem divides_piece {gap piece : List Char} (hg : ∀ c ∈ gap, c = '_') (hne : piece ≠ []) (hp : '_' ∉ piece) :
    Divides (gap ++ piece) (cutsOf gap (piece.splitBy fun a b => !isHump a b)) [] where
  text := by rw [List.append_nil, flatMap_text_cutsOf (List.splitBy_ne_nil.2 hne), List.flatten_splitBy]
  gaps := by
    intro r hr c hc
    rcases gap_of_mem_cutsOf hr with he | he
    · exact hg c (he ▸ hc)
    · exact absurd (he ▸ hc) List.not_mem_nil
  rest := nofun
  parts := by
    intro r hr
    have hmem := List.mem_map_of_mem (f := Cut.part) hr
    rw [map_part_cutsOf] at hmem
    refine ⟨List.ne_nil_of_mem_splitBy hmem, fun hu => hp ?_, ?_⟩
    · rw [← List.flatten_splitBy (fun a b => !isHump a b) piece]
      exact List.mem_flatten_of_mem hmem hu
    · simpa using List.isChain_of_mem_splitBy hmem
  meets := by
    have hchain := List.isChain_getLast_head_splitBy (fun a b => !isHump a b) piece
    rw [← map_part_cutsOf gap (piece.splitBy fun a b => !isHump a b), List.isChain_map] at hchain
    refine hchain.imp fun r s => ?_
    rintro ⟨ha, hb, hhump⟩
    exact .inr ⟨ha, hb, by simpa using hhump⟩

theorem Divides.append {u v rest : List Char} {rs ss : List Cut} (hu : Divides u rs []) (hv : Divides v ss rest)
    (hgap : ∀ s ∈ ss.head?, s.gap ≠ []) : Divides (u ++ v) (rs ++ ss) rest where
  text := by
    rw [List.flatMap_append, List.append_assoc, hv.text, ← hu.text, List.append_nil]
  gaps r hr := (List.mem_append.1 hr).elim (hu.gaps r) (hv.gaps r)
  rest := hv.rest
  parts r hr := (List.mem_append.1 hr).elim (hu.parts r) (hv.parts r)
  meets := List.isChain_append.2 ⟨hu.meets, hv.meets, fun _ _ s hs => .inl (hgap s hs)⟩

/-- No part goes across an underscore. -/
theorem splitIdentifier_append (u v : List Char) :
    splitIdentifier (u ++ '_' :: v) = splitIdentifier u ++ splitIdentifier v := by
  rw [splitIdentifier, fields_append rfl, List.flatMap_append, List.map_append]
  rfl

theorem splitIdentifier_piece {piece : List Char} (hne : piece ≠ []) (hp : '_' ∉ piece)
    (h : ∀ c ∈ piece, c.toNat < 128) :
    splitIdentifier piece = (piece.splitBy fun a b => !isHump a b).map lowerChars := by
  have hfields : fields (· == '_') piece = [piece] :=
    fields_of_ne_nil hne fun c hc => beq_false_of_ne fun he => hp (he ▸ hc)
  rw [splitIdentifier, hfields, List.flatMap_singleton, splitPiece_eq h]

theorem head?_cutsOf {gap : List Char} {parts : List (List Char)} :
    ∀ r ∈ (cutsOf gap parts).head?, r.gap = gap := by
  cases parts with
  | nil => nofun
  | cons part parts =>
    rintro r ⟨⟩
    rfl

/-- The cuts of a word that stands behind a gap, which goes into the first of them. -/
structure CutBehind (gap word : List Char) (cuts : List Cut) (rest : List Char) : Prop where
  divides : Divides (gap ++ word) cuts rest
  first : gap ≠ [] → ∀ r ∈ cuts.head?, r.gap ≠ []
  parts : splitIdentifier word = cuts.map fun r => lowerChars r.part

theorem cutBehind_piece {gap piece : List Char} (hg : ∀ c ∈ gap, c = '_') (hne : piece ≠ []) (hp : '_' ∉ piece)
    (h : ∀ c ∈ piece, c.toNat < 128) :
    CutBehind gap piece (cutsOf gap (piece.splitBy fun a b => !isHump a b)) [] where
  divides := divides_piece hg hne hp
  first hgap r hr := head?_cutsOf r hr ▸ hgap
  parts := by
    calc splitIdentifier piece
      _ = (piece.splitBy fun a b => !isHump a b).map lowerChars := splitIdentifier_piece hne hp h
      _ = ((cutsOf gap (piece.splitBy fun a b => !isHump a b)).map Cut.part).map lowerChars := by rw [map_part_cutsOf]
      _ = _ := List.map_map

theorem cutBehind_nil {gap : List Char} (hg : ∀ c ∈ gap, c = '_') : CutBehind gap [] [] gap where
  divides := ⟨(List.append_nil gap).symm, nofun, hg, nofun, .nil⟩
  first := nofun
  parts := rfl

/-- An underscore more in the gap. -/
theorem CutBehind.underscore {gap word rest : List Char} {cuts : List Cut}
    (h : CutBehind (gap ++ ['_']) word cuts rest) : CutBehind gap ('_' :: word) cuts rest where
  divides := by simpa using h.divides
  first _ := h.first (by simp)
  parts := (splitIdentifier_append [] word).trans h.parts

/-- A piece before a word that begins with an underscore. -/
theorem CutBehind.append {gap piece word rest : List Char} {rs ss : List Cut} (hu : CutBehind gap piece rs [])
    (hv : CutBehind ['_'] word ss rest) (hne : piece ≠ []) :
    CutBehind gap (piece ++ '_' :: word) (rs ++ ss) rest where
  divides := by simpa using hu.divides.append hv.divides (hv.first (by simp))
  first hgap r hr := by
    have hrs : rs ≠ [] := by
      rintro rfl
      exact hne (List.append_eq_nil_iff.1 hu.divides.text.symm).2
    rw [List.head?_append_of_ne_nil rs hrs] at hr
    exact hu.first hgap r hr
  parts := by rw [splitIdentifier_append, hu.parts, hv.parts, List.map_append]

theorem exists_cutBehind {gap word : List Char} (hg : ∀ c ∈ gap, c = '_') (h : ∀ c ∈ word, c.toNat < 128) :
    ∃ cuts rest, CutBehind gap word cuts rest := by
  -- by the length of the word: what comes first is an underscore, or a piece up to the next one
  induction hn : word.length using Nat.strong_induction_on generalizing gap word with
  | _ n ih =>
    by_cases hu : '_' ∈ word
    · obtain ⟨piece, tail, rfl, hp⟩ := List.eq_append_cons_of_mem hu
      have hpiece : ∀ c ∈ piece, c.toNat < 128 := fun c hc => h c (List.mem_append_left _ hc)
      have htail : ∀ c ∈ tail, c.toNat < 128 := fun c hc =>
        h c (List.mem_append_right _ (List.mem_cons_of_mem _ hc))
      have hlt : tail.length < n := by
        rw [← hn, List.length_append, List.length_cons]
        omega
      rcases eq_or_ne piece [] with rfl | hne
      · have hg' : ∀ c ∈ gap ++ ['_'], c = '_' := fun c hc =>
          (List.mem_append.1 hc).elim (hg c) List.mem_singleton.1
        obtain ⟨cuts, rest, hr⟩ := ih tail.length hlt hg' htail rfl
        exact ⟨cuts, rest, hr.underscore⟩
      · obtain ⟨cuts, rest, hr⟩ := ih tail.length hlt (fun c => List.mem_singleton.1) htail rfl
        exact ⟨_, rest, (cutBehind_piece hg hne hp hpiece).append hr hne⟩
    · rcases eq_or_ne word [] with rfl | hne
      · exact ⟨[], gap, cutBehind_nil hg⟩
      · exact ⟨_, [], cutBehind_piece hg hne hu h⟩

theorem exists_divides {word : List Char} (h : ∀ c ∈ word, c.toNat < 128) :
    ∃ cuts rest, Divides word cuts rest ∧ splitIdentifier word = cuts.map fun r => lowerChars r.part := by
  have hg : ∀ c ∈ ([] : List Char), c = '_' := nofun
  obtain ⟨cuts, rest, hr⟩ := exists_cutBehind hg h
  exact ⟨cuts, rest, hr.divides, hr.parts⟩

/-- What the parts leave out of a word are its underscores. -/
theorem Divides.flatMap_part {word rest : List Char} {cuts : List Cut} (h : Divides word cuts rest) :
    cuts.flatMap Cut.part = word.filter (· ≠ '_') := by
  have hcut : ∀ r ∈ cuts, r.text.filter (· ≠ '_') = r.part := by
    intro r hr
    have hgap : r.gap.filter (· ≠ '_') = [] := List.filter_eq_nil_iff.2 fun c hc => by simp [h.gaps r hr c hc]
    have hpart : r.part.filter (· ≠ '_') = r.part := List.filter_eq_self.2 fun c hc => by
      simpa using fun he : c = '_' => (h.parts r hr).2.1 (he ▸ hc)
    rw [Cut.text, List.filter_append, hgap, hpart, List.nil_append]
  have hrest : rest.filter (· ≠ '_') = [] := List.filter_eq_nil_iff.2 fun c hc => by simp [h.rest c hc]
  rw [← h.text, List.filter_append, hrest, List.append_nil, List.filter_flatMap]
  exact (List.flatMap_congr fun r hr => hcut r hr).symm

theorem Divides.mem_of_mem_part {word rest : List Char} {cuts : List Cut} (h : Divides word cuts rest) {r : Cut}
    (hr : r ∈ cuts) {c : Char} (hc : c ∈ r.part) : c ∈ word := by
  rw [← h.text]
  exact List.mem_append_left _ (List.mem_flatMap.2 ⟨r, hr, List.mem_append_right _ hc⟩)

theorem filter_lowerChars {word : List Char} (h : ∀ c ∈ word, c.toNat < 128) :
    (lowerChars word).filter (· ≠ '_') = (word.filter (· ≠ '_')).map Char.toLower := by
  rw [lowerChars_of_ascii h, List.filter_map]
  congr 2
  funext c
  simp [toLower_eq_underscore]

theorem tokens_append (a b : String) {c : Char} (hc : isBreak c = true) :
    tokens (a ++ String.singleton c ++ b) = tokens a ++ tokens b := by
  rw [tokens, String.toList_append, String.toList_append, String.toList_singleton, List.append_assoc,
    List.singleton_append, fields_append hc, List.flatMap_append, List.map_append]
  rfl

/-- **Tokens**: a text that is put together at a break has the tokens of one side and then those of the other. The parts
of an identifier in ASCII are not empty, they make up the word in lower case without its underscores, and they are cut
out of it where the word has underscores or a capital that follows a small letter or a digit, and nowhere else. -/
theorem tokens_compose :
    (∀ (a b : String) (c : Char), isWordChar c = false → c ≠ '_' →
        tokens (a ++ String.singleton c ++ b) = tokens a ++ tokens b) ∧
      ∀ word : List Char, (∀ c ∈ word, c.toNat < 128) →
        (∀ part ∈ splitIdentifier word, part ≠ []) ∧
        (splitIdentifier word).flatten = (lowerChars word).filter (· ≠ '_') ∧
        ∃ cuts rest, Divides word cuts rest ∧ splitIdentifier word = cuts.map fun r => lowerChars r.part := by
  refine ⟨fun a b c hw hu => tokens_append a b (by simp [isBreak, hw, hu]), fun word h => ?_⟩
  obtain ⟨cuts, rest, hdiv, hparts⟩ := exists_divides h
  have hlower : ∀ r ∈ cuts, lowerChars r.part = r.part.map Char.toLower := fun r hr =>
    lowerChars_of_ascii fun c hc => h c (hdiv.mem_of_mem_part hr hc)
  have hmap : splitIdentifier word = cuts.map fun r => r.part.map Char.toLower :=
    hparts.trans (List.map_congr_left hlower)
  refine ⟨fun part hp => ?_, ?_, cuts, rest, hdiv, hparts⟩
  · rw [hmap] at hp
    obtain ⟨r, hr, rfl⟩ := List.mem_map.1 hp
    exact mt List.map_eq_nil_iff.1 (hdiv.parts r hr).1
  · rw [hmap, filter_lowerChars h, ← hdiv.flatMap_part, List.map_flatMap, List.flatMap_def]

theorem tokens_compose_parseHTTP :
    tokens ("loadAll" ++ String.singleton '(' ++ "x_y") = tokens "loadAll" ++ tokens "x_y" ∧
      ∃ cuts rest, Divides "_parseHTTP2Go__x_".toList cuts rest ∧
        (cuts.map fun r => lowerChars r.part) = ["parse".toList, "http2".toList, "go".toList, "x".toList] := by
  have hascii : ("_parseHTTP2Go__x_".toList.all fun c => decide (c.toNat < 128)) = true := by decide +kernel
  obtain ⟨-, -, cuts, rest, hdiv, hparts⟩ := tokens_compose.2 "_parseHTTP2Go__x_".toList fun c hc =>
    of_decide_eq_true (List.all_eq_true.1 hascii c hc)
  exact ⟨tokens_compose.1 "loadAll" "x_y" '(' (by decide) (by decide), cuts, rest, hdiv,
    hparts.symm.trans (by decide +kernel)⟩

end Embedding

end CodeIndex
