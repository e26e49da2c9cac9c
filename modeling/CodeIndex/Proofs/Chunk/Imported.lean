import CodeIndex.Chunk.Reference
import CodeIndex.Proofs.Text.Trim

/-!
What an import declaration refers to. Its name is cut out of the text by dropping the words `import` and `static` from
the front, each but once, and the semicolon from the end. No white space is asked for behind a dropped word, so a
declaration without `static` whose name begins with these letters refers to the rest of the name only.
-/

namespace CodeIndex.Chunk

open Syntax Text

/-- A word of a dotted name: an identifier or a star. White space, dots and semicolons end it. -/
def IsWord (word : String) : Prop := word ≠ "" ∧ ∀ c ∈ word.toList, isBlank c = false ∧ c ≠ '.' ∧ c ≠ ';'

theorem isWord_iff {word : String} : IsWord word ↔
    word ≠ "" ∧ word.toList.all (fun c => !isBlank c && c != '.' && c != ';') = true := by
  simp only [IsWord, List.all_eq_true, Bool.and_eq_true, Bool.not_eq_true', bne_iff_ne, and_assoc]

instance {word : String} : Decidable (IsWord word) := decidable_of_iff _ isWord_iff.symm

/-- An import declaration as it is written: `import`, perhaps `static`, a dotted name and a semicolon, with white space
between them. -/
structure ImportForm where
  gap : String
  /-- The white space after `static`, if that is there. -/
  modifier : Option String
  words : List String
  padding : String
  gap_ne : gap ≠ ""
  gap_blank : isBlankText gap = true
  modifier_ne : ∀ m ∈ modifier, m ≠ ""
  modifier_blank : ∀ m ∈ modifier, isBlankText m = true
  words_ne : words ≠ []
  words_word : ∀ word ∈ words, IsWord word
  padding_blank : isBlankText padding = true

namespace ImportForm

variable (f : ImportForm)

def name : String := ".".intercalate f.words

/-- All that stands behind the first white space. -/
def rest : String := f.modifier.elim "" ("static" ++ ·) ++ (f.name ++ f.padding) ++ ";"

def text : String := "import" ++ (f.gap ++ f.rest)

/-- The name, or what it is after the letters of `static` if it begins with these and the modifier is missing. -/
def target : String := if f.modifier.isSome then f.name else (dropPrefix? "static" f.name).getD f.name

variable {f}

theorem mem_name {c : Char} (hc : c ∈ f.name.toList) : isBlank c = false ∧ c ≠ ';' := by
  rw [name, String.toList_intercalate] at hc
  rcases mem_intercalate hc with rfl | ⟨p, hp, hc⟩
  · decide
  · obtain ⟨word, hw, rfl⟩ := List.mem_map.1 hp
    obtain ⟨hblank, -, hsemicolon⟩ := (f.words_word word hw).2 c hc
    exact ⟨hblank, hsemicolon⟩

theorem name_ne : f.name ≠ "" := by
  rw [Ne, ← String.toList_eq_nil_iff, name, String.toList_intercalate]
  have hne := f.words_ne
  have hword := f.words_word
  cases hw : f.words with
  | nil => exact absurd hw hne
  | cons word words =>
    have hfirst : word.toList ≠ [] := fun h => (hword word (hw ▸ List.mem_cons_self)).1 (String.toList_eq_nil_iff.1 h)
    cases words with
    | nil => simpa using hfirst
    | cons next words =>
      rw [List.map_cons, List.map_cons, List.intercalate_cons_cons, List.append_assoc]
      exact List.append_ne_nil_of_left_ne_nil hfirst _

/-- What is dropped from a name leaves characters of the name. -/
theorem mem_target {c : Char} (hc : c ∈ f.target.toList) : isBlank c = false ∧ c ≠ ';' := by
  refine mem_name (f := f) ?_
  unfold target at hc
  split at hc
  · exact hc
  · rw [dropPrefix?_eq] at hc
    split at hc
    · rw [Option.getD_some, String.toList_ofList] at hc
      exact List.mem_of_mem_drop hc
    · exact hc

end ImportForm

theorem bare_semicolon {s : String} (h : ∀ c ∈ s.toList.head?, isBlank c = false) :
    Bare isBlank (s ++ ";").toList := by
  have hsemicolon : isBlank ';' = false := by decide
  refine ⟨fun c hc => ?_, fun c hc => ?_⟩
  · rw [String.toList_append, List.head?_append] at hc
    rcases Option.or_eq_some_iff.1 hc with hc | ⟨-, hc⟩
    · exact h c hc
    · obtain rfl : ';' = c := Option.some.inj hc
      exact hsemicolon
  · rw [String.toList_append, show ";".toList = [';'] from rfl, List.getLast?_concat] at hc
    obtain rfl : ';' = c := Option.some.inj hc
    exact hsemicolon

/-- The end of a declaration is blank but for its semicolon, so the name in front of it is left. -/
theorem trim_before_semicolon {name padding : String} (hn : ∀ c ∈ name.toList, isBlank c = false ∧ c ≠ ';')
    (hp : isBlankText padding = true) :
    trim (.ofList (stripEnd (· == ';') (trim (name ++ padding ++ ";")).toList)) = name := by
  have hfirst : ∀ c ∈ name.toList.head?, isBlank c = false := fun c hc => (hn c (List.mem_of_mem_head? hc)).1
  have hlast : ∀ c ∈ name.toList.getLast?, isBlank c = false := fun c hc => (hn c (List.mem_of_getLast? hc)).1
  by_cases he : name = ""
  · -- trimming the whole takes the padding as well, and nothing but the semicolon is left
    subst he
    have htrim : trim ("" ++ padding ++ ";") = ";" := by
      have hbare : Bare isBlank ("" ++ ";").toList := bare_semicolon fun c hc => nomatch hc
      have hpad := trim_pad padding "" hp rfl hbare
      rwa [String.append_empty, String.empty_append, ← String.empty_append (s := padding)] at hpad
    rw [htrim]
    decide
  · have hwhole : trim (name ++ padding ++ ";") = name ++ padding ++ ";" := by
      refine trim_eq_self (bare_semicolon fun c hc => hfirst c ?_)
      rwa [head?_toList_append he] at hc
    have hsemicolon : ∀ c ∈ (name ++ padding).toList, c ≠ ';' := by
      intro c hc
      rw [String.toList_append] at hc
      rcases List.mem_append.1 hc with hc | hc
      · exact (hn c hc).2
      · rintro rfl
        exact absurd (List.all_eq_true.1 hp ';' hc) (by decide)
    have hend : stripEnd (· == ';') (name ++ padding ++ ";").toList = (name ++ padding).toList := by
      rw [String.toList_append]
      exact stripEnd_pad (fun c hc => beq_of_eq (List.mem_singleton.1 hc)) fun c hc =>
        beq_false_of_ne (hsemicolon c (List.mem_of_getLast? hc))
    have hpad := trim_pad "" padding rfl hp ⟨hfirst, hlast⟩
    rw [hwhole, hend, String.ofList_toList]
    rwa [String.empty_append] at hpad

namespace ImportForm

variable (f : ImportForm)

theorem trim_text : trim f.text = f.text := by
  have htext :
      f.text = "import" ++ (f.gap ++ (f.modifier.elim "" ("static" ++ ·) ++ (f.name ++ f.padding))) ++ ";" := by
    simp only [text, rest, String.append_assoc]
  rw [htext]
  refine trim_eq_self (bare_semicolon fun c hc => ?_)
  rw [head?_toList_append (by decide)] at hc
  cases hc
  decide

/-- The first keyword goes, with the white space behind it. -/
theorem trim_import : trim ((dropPrefix? "import" f.text).getD f.text) = f.rest := by
  have hrest : Bare isBlank f.rest.toList := by
    refine bare_semicolon fun c hc => ?_
    cases hm : f.modifier with
    | none =>
      rw [hm, Option.elim_none, String.empty_append, head?_toList_append f.name_ne] at hc
      exact (mem_name (List.mem_of_mem_head? hc)).1
    | some gap =>
      rw [hm, Option.elim_some, String.append_assoc, head?_toList_append (by decide)] at hc
      cases hc
      decide
  have hpad := trim_pad f.gap "" f.gap_blank rfl hrest
  rw [text, dropPrefix?_append, Option.getD_some]
  rwa [String.append_empty] at hpad

/-- Then the second, if it is there; if it is not, its letters go. -/
theorem trim_static :
    trim ((dropPrefix? "static" f.rest).getD f.rest) = trim (f.target ++ f.padding ++ ";") := by
  cases hm : f.modifier with
  | some gap =>
    have hgap : isBlankText gap = true := f.modifier_blank gap hm
    have hrest : f.rest = "static" ++ (gap ++ (f.name ++ f.padding ++ ";")) := by
      simp only [rest, hm, Option.elim_some, String.append_assoc]
    have htarget : f.target = f.name := by
      simp only [target, hm, Option.isSome_some, if_true]
    have hbare : Bare isBlank (f.name ++ f.padding ++ ";").toList := by
      refine bare_semicolon fun c hc => ?_
      rw [head?_toList_append f.name_ne] at hc
      exact (mem_name (List.mem_of_mem_head? hc)).1
    have hpad := trim_pad gap "" hgap rfl hbare
    rw [hrest, dropPrefix?_append, Option.getD_some, htarget, trim_eq_self hbare]
    rwa [String.append_empty] at hpad
  | none =>
    have hrest : f.rest = f.name ++ (f.padding ++ ";") := by
      simp only [rest, hm, Option.elim_none, String.empty_append, String.append_assoc]
    have htarget : f.target = (dropPrefix? "static" f.name).getD f.name := by
      simp only [target, hm, Option.isSome_none, Bool.false_eq_true, if_false]
    have htail : ∀ c ∈ (f.padding ++ ";").toList.head?, c ∉ "static".toList := by
      intro c hc
      rw [String.toList_append] at hc
      rcases List.mem_append.1 (List.mem_of_mem_head? hc) with hc | hc
      · intro hstatic
        have hblank := List.all_eq_true.1 f.padding_blank c hc
        have hletters : "static".toList.all (!isBlank ·) = true := by decide
        have hletter := List.all_eq_true.1 hletters c hstatic
        rw [hblank] at hletter
        cases hletter
      · rw [List.mem_singleton.1 hc]
        decide
    rw [hrest, dropPrefix?_append_tail htail, htarget]
    cases dropPrefix? "static" f.name with
    | none => rw [Option.map_none, Option.getD_none, Option.getD_none, String.append_assoc]
    | some name => rw [Option.map_some, Option.getD_some, Option.getD_some, String.append_assoc]

/-- The name that is cut out of an import declaration. -/
theorem importedName_text : importedName f.text = f.target := by
  simp only [importedName, f.trim_text, f.trim_import, f.trim_static]
  exact trim_before_semicolon (fun c hc => mem_target hc) f.padding_blank

/-- Nothing is lost of a name just when the modifier is there, or the name does not begin with its letters. -/
theorem target_eq_name_iff : f.target = f.name ↔ f.modifier.isSome ∨ ¬ "static".toList <+: f.name.toList := by
  unfold target
  split
  · rename_i h
    exact iff_of_true rfl (.inl h)
  · rename_i h
    rw [dropPrefix?_eq, or_iff_right h]
    by_cases hp : "static".toList <+: f.name.toList
    · rw [if_pos hp, Option.getD_some]
      refine iff_of_false (fun he => ?_) fun hn => hn hp
      have hlength := congrArg String.length he
      rw [← String.length_toList, String.toList_ofList, List.length_drop, String.length_toList] at hlength
      have hpos : f.name.length ≠ 0 := mt String.length_eq_zero_iff.1 f.name_ne
      rw [show "static".length = 6 from rfl] at hlength
      omega
    · rw [if_neg hp, Option.getD_none]
      exact iff_of_true rfl hp

end ImportForm

section References

variable {src : Source} {kind : String} {named : Bool} {field : Option Field} {start stop : Nat} {n : Node}

/-- Each top-level node is asked by itself, and those without a name are not asked. -/
theorem references_append (language : Language) (before after : List Node) (hn : n.named = true) :
    references src language (.mk kind named field start stop (before ++ n :: after)) =
      references src language (.mk kind named field start stop before) ++
        references src language (.mk kind named field start stop [n]) ++
        references src language (.mk kind named field start stop after) := by
  have hfilter :
      (before ++ n :: after).filter Node.named = before.filter Node.named ++ [n] ++ after.filter Node.named := by
    rw [List.filter_append, List.filter_cons_of_pos hn, List.append_assoc, List.singleton_append]
  have hone : [n].filter Node.named = [n] := List.filter_cons_of_pos hn
  simp only [references, Node.namedChildren, Node.children, hfilter, hone, List.flatMap_append]

theorem roleOf_import (f : ImportForm) (ht : n.text src = f.text) : roleOf src n .imported = .imported := by
  refine if_neg fun hp => ?_
  rw [ht, List.isPrefixOf_iff_prefix, ImportForm.text, String.toList_append] at hp
  obtain ⟨rest, hrest⟩ := hp
  have hfirst := congrArg List.head? hrest
  cases hfirst

theorem references_import (f : ImportForm) (hn : n.named = true) (hk : n.kind = "import_declaration")
    (ht : n.text src = f.text) :
    references src .java (.mk kind named field start stop [n]) =
      if f.target.isEmpty then [] else [⟨.imported, f.target, n.startRow src + 1⟩] := by
  have hone : [n].filter Node.named = [n] := List.filter_cons_of_pos hn
  have htargets : targets src .java n = [f.target] := by
    simp only [targets, hk, reduceCtorEq, if_false, ht, f.importedName_text]
  have hkind : Language.java.xrefKinds.find? (·.1 == n.kind) = some ("import_declaration", .imported) := by
    rw [hk]
    decide
  simp only [references, Node.namedChildren, Node.children, hone, List.flatMap_cons, List.flatMap_nil, List.append_nil,
    hkind, htargets, roleOf_import f ht]
  by_cases he : f.target.isEmpty = true <;> simp [he]

end References

/-- An import declaration among the top-level nodes of a file refers to one thing, its target, if that is not empty. It
is the name as it is written just when the declaration is marked `static` or the name does not begin with these letters.
-/
theorem import_targets (src : Source) (kind : String) (named : Bool) (field : Option Field) (start stop : Nat)
    (before after : List Node) (n : Node) (hn : n.named = true) (hk : n.kind = "import_declaration") (f : ImportForm)
    (ht : n.text src = f.text) :
    let found := fun children => references src .java (.mk kind named field start stop children)
    let line := n.startRow src + 1
    found (before ++ n :: after) =
        found before ++ (if f.target.isEmpty then [] else [⟨.imported, f.target, line⟩]) ++ found after ∧
      (found (before ++ n :: after) = found before ++ [⟨.imported, f.name, line⟩] ++ found after ↔
        f.modifier.isSome ∨ ¬ "static".toList <+: f.name.toList) := by
  intro found line
  have hwhole : found (before ++ n :: after) =
      found before ++ (if f.target.isEmpty then [] else [⟨.imported, f.target, line⟩]) ++ found after :=
    (references_append .java before after hn).trans (by rw [references_import f hn hk ht])
  refine ⟨hwhole, ?_⟩
  rw [hwhole, List.append_left_inj, List.append_right_inj, ← f.target_eq_name_iff]
  constructor
  · intro h
    split at h
    · cases h
    · have htarget := congrArg (List.map Xref.target) h
      simpa using htarget
  · intro h
    have hne : f.target.isEmpty = false := by
      rw [h, ← Bool.not_eq_true, String.isEmpty_iff]
      exact f.name_ne
    rw [if_neg (Bool.eq_false_iff.1 hne), h]

/-- Names that begin with the letters of `static`, with the modifier and without it. -/
def staticSource : Source := .ofString "import static  staticx.Y.* ;\nimport staticx.Y;\n"

def markedImport : Node := .mk "import_declaration" true none 0 28 []

def plainImport : Node := .mk "import_declaration" true none 29 46 []

def markedForm : ImportForm where
  gap := " "
  modifier := some "  "
  words := ["staticx", "Y", "*"]
  padding := " "
  gap_ne := by decide
  gap_blank := by decide
  modifier_ne := by decide
  modifier_blank := by decide
  words_ne := by decide
  words_word := by decide
  padding_blank := by decide

theorem import_targets_marked :
    markedImport.named = true ∧ markedImport.kind = "import_declaration" ∧
      markedImport.text staticSource = markedForm.text ∧
      references staticSource .java (.mk "program" true none 0 47 [markedImport, plainImport]) =
        [⟨.imported, "staticx.Y.*", 1⟩] ++
          references staticSource .java (.mk "program" true none 0 47 [plainImport]) := by
  have htext : markedImport.text staticSource = markedForm.text := by decide +kernel
  have hboth :=
    import_targets staticSource "program" true none 0 47 [] [plainImport] markedImport rfl rfl markedForm htext
  have hline : markedImport.startRow staticSource + 1 = 1 := by decide +kernel
  have hname : markedForm.name = "staticx.Y.*" := by decide +kernel
  refine ⟨rfl, rfl, htext, ?_⟩
  have hfound := hboth.2.2 (.inl rfl)
  rw [hline, hname] at hfound
  exact hfound

/-- Without the modifier the letters are taken for it. -/
theorem static_letters_lost :
    let found := references staticSource .java (.mk "program" true none 0 47 [markedImport, plainImport])
    plainImport.text staticSource = "import staticx.Y;" ∧
      found = [⟨.imported, "staticx.Y.*", 1⟩, ⟨.imported, "x.Y", 2⟩] ∧ ⟨.imported, "staticx.Y", 2⟩ ∉ found := by
  decide +kernel

end CodeIndex.Chunk
