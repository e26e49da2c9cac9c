import CodeIndex.Indexing.Indexer
import CodeIndex.Proofs.Text.Trim
import Mathlib.Data.List.Basic

/-!
What a path is called below the root of a project. Its relative path is in normal form already, and tells the same
language as the path itself.
-/

namespace CodeIndex

namespace Path

/-- The last of some pieces that counts. -/
def lastPiece? (pieces : List (List Char)) : Option (List Char) := pieces.reverse.find? fun p => !isIdle p

@[simp] theorem lastPiece?_append (ps qs : List (List Char)) :
    lastPiece? (ps ++ qs) = (lastPiece? qs).or (lastPiece? ps) := by
  rw [lastPiece?, List.reverse_append, List.find?_append]
  rfl

theorem lastPiece?_singleton (p : List Char) : lastPiece? [p] = if isIdle p then none else some p := by
  cases h : isIdle p <;> simp [lastPiece?, h]

theorem lastPiece?_cons_idle {p : List Char} (h : isIdle p = true) (ps : List (List Char)) :
    lastPiece? (p :: ps) = lastPiece? ps := by
  rw [← List.singleton_append, lastPiece?_append, lastPiece?_singleton, if_pos h, Option.or_none]

/-- The piece that a component stands for, if it has a name. -/
def nameOf? (piece : List Char) : Option String := if piece = ['.', '.'] then none else some (.ofList piece)

theorem idle_cases {p : List Char} (h : isIdle p = true) : p = [] ∨ p = ['.'] := by
  simpa [isIdle] using h

theorem ofPiece?_busy {p : List Char} (h : isIdle p = false) (first : Bool) :
    ofPiece? first p = some (if p = ['.', '.'] then .parent else .normal (.ofList p)) := by
  obtain ⟨h₁, h₂⟩ : p ≠ [] ∧ p ≠ ['.'] := by simpa [isIdle] using h
  rw [ofPiece?, if_neg h₁, if_neg h₂]
  split <;> rfl

theorem findSome?_ofPiece? (ps : List (List Char)) :
    ps.findSome? (ofPiece? false) = (ps.find? fun p => !isIdle p).bind (ofPiece? false) := by
  induction ps with
  | nil => rfl
  | cons p ps ih =>
    rw [List.findSome?_cons, List.find?_cons]
    cases h : isIdle p with
    | true =>
      rcases idle_cases h with rfl | rfl <;> exact ih
    | false =>
      rw [ofPiece?_busy h]
      exact (ofPiece?_busy h false).symm

/-- The name of a component that has one. -/
def nameOfComponent? : Component → Option String
  | .normal name => some name
  | _ => none

theorem name?_ofPiece? {p : List Char} (h : isIdle p = false) (first : Bool) :
    (ofPiece? first p).bind nameOfComponent? = nameOf? p := by
  rw [ofPiece?_busy h, nameOf?]
  split <;> rfl

/-- The name of a path's file is the last piece that counts. -/
theorem fileName?_eq (path : String) : fileName? path = (lastPiece? (path.toList.splitOn '/')).bind nameOf? := by
  have hname : fileName? path = (components path).getLast?.bind nameOfComponent? := by
    unfold fileName?
    rcases (components path).getLast? with _ | ⟨_ | _ | _ | _⟩ <;> rfl
  rw [hname]
  unfold components
  cases hs : path.toList.splitOn '/' with
  | nil => exact absurd hs (by simp)
  | cons head rest =>
    -- the last name stands among the inner pieces, or else it is the first piece
    have hlast : ∀ cs : List Component, cs.getLast?.bind nameOfComponent? = (lastPiece? [head]).bind nameOf? →
        (cs ++ rest.filterMap (ofPiece? false)).getLast?.bind nameOfComponent? =
          (lastPiece? (head :: rest)).bind nameOf? := by
      intro cs hcs
      rw [← List.singleton_append, lastPiece?_append, List.getLast?_append, List.getLast?_filterMap,
        findSome?_ofPiece?, lastPiece?]
      cases hf : rest.reverse.find? fun p => !isIdle p with
      | none => exact hcs
      | some p =>
        have hp : isIdle p = false := by simpa using List.find?_some hf
        rw [Option.some_or, Option.bind_some, Option.bind_some, ← name?_ofPiece? hp false, ofPiece?_busy hp]
        rfl
    rw [lastPiece?_singleton] at hlast
    dsimp only
    split
    · rename_i hroot
      refine hlast [.root] ?_
      rw [hroot.1]
      rfl
    · refine hlast _ ?_
      cases h : isIdle head with
      | true =>
        rcases idle_cases h with rfl | rfl <;> rfl
      | false =>
        rw [if_neg Bool.false_ne_true, Option.bind_some, ← name?_ofPiece? h true, ofPiece?_busy h]
        rfl

theorem extension?_congr {path path' : String}
    (h : lastPiece? (path.toList.splitOn '/') = lastPiece? (path'.toList.splitOn '/')) :
    extension? path = extension? path' := by
  rw [extension?, fileName?_eq, h, ← fileName?_eq]
  rfl

theorem slash_not_mem_splitOn (cs : List Char) : ∀ p ∈ cs.splitOn '/', '/' ∉ p := by
  induction cs with
  | nil => simp
  | cons c cs ih =>
    intro p hp
    rw [List.splitOn_cons_eq_if_modifyHead] at hp
    split at hp
    · rcases List.mem_cons.1 hp with rfl | hp
      · exact List.not_mem_nil
      · exact ih p hp
    · rename_i hc
      cases hs : cs.splitOn '/' with
      | nil => exact absurd hs (by simp)
      | cons q qs =>
        rw [hs, List.modifyHead_cons] at hp
        rw [hs] at ih
        rcases List.mem_cons.1 hp with rfl | hp
        · have hq := ih q List.mem_cons_self
          intro hm
          rcases List.mem_cons.1 hm with rfl | hm
          · exact hc (by simp)
          · exact hq hm
        · exact ih p (List.mem_cons_of_mem q hp)

theorem mem_of_mem_splitOn {cs p : List Char} {c : Char} (hp : p ∈ cs.splitOn '/') (hc : c ∈ p) : c ∈ cs := by
  induction cs generalizing p with
  | nil =>
    rw [List.splitOn_nil, List.mem_singleton] at hp
    exact hp ▸ hc
  | cons d cs ih =>
    rw [List.splitOn_cons_eq_if_modifyHead] at hp
    split at hp
    · rcases List.mem_cons.1 hp with rfl | hp
      · exact absurd hc List.not_mem_nil
      · exact List.mem_cons_of_mem d (ih hp hc)
    · cases hs : cs.splitOn '/' with
      | nil => exact absurd hs (by simp)
      | cons q qs =>
        rw [hs, List.modifyHead_cons] at hp
        rw [hs] at ih
        rcases List.mem_cons.1 hp with rfl | hp
        · rcases List.mem_cons.1 hc with rfl | hc
          · exact List.mem_cons_self
          · exact List.mem_cons_of_mem d (ih List.mem_cons_self hc)
        · exact List.mem_cons_of_mem d (ih (List.mem_cons_of_mem q hp) hc)

theorem lastPiece?_intercalate {ps : List (List Char)} (h : ∀ p ∈ ps, '/' ∉ p) :
    lastPiece? ((['/'].intercalate ps).splitOn '/') = lastPiece? ps := by
  cases ps with
  | nil => rfl
  | cons p ps => rw [List.splitOn_intercalate '/' h (List.cons_ne_nil p ps)]

/-- What is left of some pieces after idle ones at the ends and whole pieces in front were dropped. -/
structure Rest (pieces rest : List (List Char)) : Prop where
  mem : ∀ p ∈ rest, p ∈ pieces
  last : lastPiece? rest = none ∨ lastPiece? rest = lastPiece? pieces

theorem Rest.of_append (ps qs : List (List Char)) : Rest (ps ++ qs) qs := by
  refine ⟨fun p hp => List.mem_append_right ps hp, ?_⟩
  rw [lastPiece?_append]
  cases lastPiece? qs with
  | none => exact .inl rfl
  | some p => exact .inr rfl

theorem Rest.of_suffix {pieces rest : List (List Char)} (h : rest <:+ pieces) : Rest pieces rest := by
  obtain ⟨ps, rfl⟩ := h
  exact .of_append ps rest

theorem dropInner_suffix (pieces : List (List Char)) (k : Nat) : dropInner pieces k <:+ pieces := by
  induction k generalizing pieces with
  | zero => exact List.dropWhile_suffix _
  | succ k ih => exact (ih _).trans ((List.drop_suffix 1 _).trans (List.dropWhile_suffix _))

theorem dropInner_head (pieces : List (List Char)) (k : Nat) :
    ∀ p ∈ (dropInner pieces k).head?, isIdle p = false := by
  induction k generalizing pieces with
  | zero =>
    intro p hp
    have h := List.head?_dropWhile_not isIdle pieces
    rw [show dropInner pieces 0 = pieces.dropWhile isIdle from rfl] at hp
    rw [Option.mem_def.1 hp] at h
    simpa using h
  | succ k ih => exact ih _

theorem lastPiece?_stripEnd (ps : List (List Char)) : lastPiece? (Text.stripEnd isIdle ps) = lastPiece? ps := by
  rw [lastPiece?, lastPiece?, Text.stripEnd, List.reverse_reverse]
  induction ps.reverse with
  | nil => rfl
  | cons p ps ih =>
    cases h : isIdle p with
    | true => rw [List.dropWhile_cons_of_pos h, List.find?_cons_of_neg (by simp [h]), ih]
    | false => rw [List.dropWhile_cons_of_neg (by simp [h])]

theorem lastPiece?_trimPieces (ps : List (List Char)) : lastPiece? (trimPieces ps) = lastPiece? ps := by
  rcases ps with _ | ⟨p, _ | ⟨q, qs⟩⟩
  · rfl
  · rfl
  · have h : lastPiece? (p :: Text.stripEnd isIdle (q :: qs)) = lastPiece? (p :: q :: qs) := by
      rw [← List.singleton_append, lastPiece?_append, lastPiece?_stripEnd, ← lastPiece?_append]
      rfl
    unfold trimPieces
    dsimp only
    split
    · rename_i hp
      rw [hp.1, hp.2] at h
      rw [hp.1]
      exact h
    · exact h

theorem mem_trimPieces {ps : List (List Char)} : ∀ p ∈ trimPieces ps, p = [] ∨ p ∈ ps := by
  rcases ps with _ | ⟨p, _ | ⟨q, qs⟩⟩
  · exact fun p hp => .inr hp
  · exact fun p hp => .inr hp
  · intro r hr
    unfold trimPieces at hr
    dsimp only at hr
    split at hr
    · simp only [List.mem_cons, List.not_mem_nil, or_false, or_self] at hr
      exact .inl hr
    · rcases List.mem_cons.1 hr with rfl | hr
      · exact .inr List.mem_cons_self
      · rw [Text.stripEnd, List.mem_reverse] at hr
        exact .inr (List.mem_cons_of_mem p (List.mem_reverse.1 ((List.dropWhile_sublist _).subset hr)))

theorem head?_trimPieces {ps : List (List Char)} (h : ∀ p ∈ ps.head?, isIdle p = false) :
    ∀ p ∈ (trimPieces ps).head?, isIdle p = false := by
  rcases ps with _ | ⟨p, _ | ⟨q, qs⟩⟩
  · exact h
  · exact h
  · have hp : p ≠ [] := by
      rintro rfl
      exact absurd (h [] rfl) (by decide)
    unfold trimPieces
    dsimp only
    rw [if_neg fun hh => hp hh.1]
    exact h

/-- The text below a base is written with pieces of the path. -/
theorem textBelow?_rest {base path text : String} (h : textBelow? base path = some text) :
    ∃ ps, text = ofPieces (trimPieces ps) ∧ Rest (path.toList.splitOn '/') ps ∧
      (hasRoot base = true → ∀ p ∈ ps.head?, isIdle p = false) := by
  unfold textBelow? at h
  split at h
  · refine ⟨_, (Option.some.inj h).symm, ?_, ?_⟩
    · split
      · exact .of_suffix List.suffix_rfl
      · rename_i _ hs
        rw [hs]
        split
        · exact .of_suffix ((dropInner_suffix _ _).trans (List.suffix_cons _ _))
        · exact .of_suffix (dropInner_suffix _ _)
      · rename_i _ hs
        exact absurd hs (by simp)
    · intro hroot
      split
      · rename_i _ hzero
        obtain ⟨cs, hcs⟩ : ∃ cs, base.toList = '/' :: cs := List.head?_eq_some_iff.1 (beq_iff_eq.1 hroot)
        have hs : base.toList.splitOn '/' = [] :: cs.splitOn '/' := by
          rw [hcs, List.splitOn_cons_eq_if_modifyHead, if_pos (beq_self_eq_true _)]
        unfold components at hzero
        rw [hs] at hzero
        simp at hzero
      · split <;> exact dropInner_head _ _
      · intro p hp
        cases hp
  · cases h

theorem Rest.trimmed {pieces ps : List (List Char)} (h : Rest pieces ps) :
    (∀ p ∈ trimPieces ps, p = [] ∨ p ∈ pieces) ∧
      (lastPiece? (trimPieces ps) = none ∨ lastPiece? (trimPieces ps) = lastPiece? pieces) :=
  ⟨fun p hp => (mem_trimPieces p hp).imp_right (h.mem p), by rw [lastPiece?_trimPieces]; exact h.last⟩

end Path

theorem lastPiece?_cons_slash (cs : List Char) :
    Path.lastPiece? (('/' :: cs).splitOn '/') = Path.lastPiece? (cs.splitOn '/') := by
  rw [List.splitOn_cons_eq_if_modifyHead, if_pos (beq_self_eq_true _), Path.lastPiece?_cons_idle rfl]

theorem lastPiece?_cons_dot_slash (cs : List Char) :
    Path.lastPiece? (('.' :: '/' :: cs).splitOn '/') = Path.lastPiece? (cs.splitOn '/') := by
  have h : ('.' :: '/' :: cs).splitOn '/' = ['.'] :: cs.splitOn '/' :=
    List.splitOn_append_cons_self_of_not_mem (by decide : '/' ∉ ['.']) cs
  rw [h, Path.lastPiece?_cons_idle rfl]

theorem map_slash {cs : List Char} (h : '\\' ∉ cs) : (cs.map fun c => if c = '\\' then '/' else c) = cs :=
  (List.map_congr_left fun c hc => if_neg fun he : c = '\\' => h (he ▸ hc)).trans (List.map_id cs)

/-- Only idle pieces are dropped when a path is brought into normal form. -/
theorem lastPiece?_normalizePath {path : String} (h : '\\' ∉ path.toList) :
    Path.lastPiece? ((normalizePath path).toList.splitOn '/') = Path.lastPiece? (path.toList.splitOn '/') := by
  have hdots : ∀ cs : List Char,
      Path.lastPiece? ((dropDotSlashes cs).splitOn '/') = Path.lastPiece? (cs.splitOn '/') := by
    intro cs
    fun_induction dropDotSlashes cs with
    | case1 rest ih => rw [lastPiece?_cons_dot_slash, ih]
    | case2 => rfl
  have hslashes : ∀ cs : List Char,
      Path.lastPiece? ((cs.dropWhile (· == '/')).splitOn '/') = Path.lastPiece? (cs.splitOn '/') := by
    intro cs
    induction cs with
    | nil => rfl
    | cons c cs ih =>
      rw [List.dropWhile_cons]
      split
      · rename_i hc
        rw [beq_iff_eq.1 hc, lastPiece?_cons_slash, ih]
      · rfl
  rw [normalizePath, map_slash h, String.toList_ofList, hslashes, hdots]

theorem dropDotSlashes_of_piece {p : List Char} (hp : '/' ∉ p) (h : Path.isIdle p = false) (rest : List Char) :
    dropDotSlashes (p ++ rest) = p ++ rest ∧ (p ++ rest).dropWhile (· == '/') = p ++ rest := by
  cases p with
  | nil => exact absurd h (by decide)
  | cons c p =>
    refine ⟨?_, List.dropWhile_cons_of_neg fun hc => hp (beq_iff_eq.1 hc ▸ List.mem_cons_self)⟩
    unfold dropDotSlashes
    split
    · rename_i heq
      exfalso
      cases p with
      | nil =>
        rw [List.cons_append] at heq
        injection heq with hc _
        exact absurd h (by rw [hc]; decide)
      | cons d p =>
        rw [List.cons_append, List.cons_append] at heq
        injection heq with _ heq
        injection heq with hd _
        exact hp (hd ▸ List.mem_cons_of_mem c List.mem_cons_self)
    · rfl

/-- A path that begins with a name is in normal form. -/
theorem normalizePath_ofPieces {ps : List (List Char)} (hs : ∀ p ∈ ps, '/' ∉ p) (hb : ∀ p ∈ ps, '\\' ∉ p)
    (hh : ∀ p ∈ ps.head?, Path.isIdle p = false) : normalizePath (Path.ofPieces ps) = Path.ofPieces ps := by
  have hnot : '\\' ∉ ['/'].intercalate ps := fun h => by
    rcases Text.mem_intercalate h with h | ⟨p, hp, h⟩
    · cases h
    · exact hb p hp h
  rw [normalizePath, Path.ofPieces, String.toList_ofList, map_slash hnot]
  cases ps with
  | nil => rfl
  | cons p ps =>
    obtain ⟨rest, heq⟩ : ∃ rest, ['/'].intercalate (p :: ps) = p ++ rest := by
      cases ps with
      | nil => exact ⟨[], by simp⟩
      | cons q ps => exact ⟨['/'] ++ ['/'].intercalate (q :: ps), by rw [List.intercalate_cons_cons, List.append_assoc]⟩
    obtain ⟨h₁, h₂⟩ := dropDotSlashes_of_piece (hs p List.mem_cons_self) (hh p rfl) rest
    rw [heq, h₁, h₂]

/-- The language that a path tells, if it tells a name at all. -/
def Language.Suits (path : String) (language : Language) : Prop :=
  Path.lastPiece? (path.toList.splitOn '/') ≠ none → Language.ofPath? path = some language

theorem Language.ofPath?_congr {path path' : String}
    (h : Path.lastPiece? (path.toList.splitOn '/') = Path.lastPiece? (path'.toList.splitOn '/')) :
    Language.ofPath? path = Language.ofPath? path' := by
  rw [Language.ofPath?, Path.extension?_congr h]
  rfl

/-- A path below a root tells the language of the file, and is in normal form. -/
theorem relativePath_spec {root file rel : String} (h : Indexer.relativePath root file = .ok rel)
    (hb : '\\' ∉ file.toList) :
    (∀ language, Language.ofPath? file = some language → Language.Suits rel language) ∧
      (Path.hasRoot root = true → normalizePath rel = rel) := by
  unfold Indexer.relativePath at h
  split at h
  · rename_i text ht
    cases h
    obtain ⟨ps, rfl, hrest, hhead⟩ := Path.textBelow?_rest ht
    obtain ⟨hmem, hlast⟩ := hrest.trimmed
    have hs : ∀ p ∈ Path.trimPieces ps, '/' ∉ p := by
      intro p hp
      rcases hmem p hp with rfl | hp
      · exact List.not_mem_nil
      · exact Path.slash_not_mem_splitOn _ p hp
    have hbp : ∀ p ∈ Path.trimPieces ps, '\\' ∉ p := by
      intro p hp
      rcases hmem p hp with rfl | hp
      · exact List.not_mem_nil
      · exact fun hc => hb (Path.mem_of_mem_splitOn hp hc)
    have hnot : '\\' ∉ (Path.ofPieces (Path.trimPieces ps)).toList := by
      rw [Path.ofPieces, String.toList_ofList]
      intro hm
      rcases Text.mem_intercalate hm with hm | ⟨p, hp, hm⟩
      · cases hm
      · exact hbp p hp hm
    have hpieces : Path.lastPiece? ((normalizePath (Path.ofPieces (Path.trimPieces ps))).toList.splitOn '/') =
        Path.lastPiece? (Path.trimPieces ps) := by
      rw [lastPiece?_normalizePath hnot, Path.ofPieces, String.toList_ofList, Path.lastPiece?_intercalate hs]
    refine ⟨fun language hl hne => ?_, fun hroot => ?_⟩
    · rw [hpieces] at hne
      rw [← hl]
      exact Language.ofPath?_congr (hpieces.trans (hlast.resolve_left hne))
    · have hn := normalizePath_ofPieces hs hbp (Path.head?_trimPieces (hhead hroot))
      rw [hn, hn]
  · cases h

end CodeIndex
