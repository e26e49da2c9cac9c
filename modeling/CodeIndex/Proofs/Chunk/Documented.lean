import CodeIndex.Proofs.Chunk.Traversal
import CodeIndex.Proofs.Text.Trim

/-!
What documents a declaration. A declaration that is exported has a token before it in its export statement, so the
comments above the statement are never asked for, and only those between the token and the declaration count. A
docstring loses the quotes at its ends; a mark in front of it keeps the first ones there.
-/

namespace CodeIndex

namespace Syntax.Node

variable {n e d : Node} {path : List Nat} {i : Nat}

theorem nodeAt?_snoc (n : Node) (path : List Nat) (i : Nat) :
    n.nodeAt? (path ++ [i]) = (n.nodeAt? path).bind (·.children[i]?) := by
  induction path generalizing n with
  | nil =>
    rw [List.nil_append, nodeAt?, nodeAt?, Option.bind_some]
    cases n.children[i]? <;> rfl
  | cons j path ih =>
    rw [List.cons_append, nodeAt?, nodeAt?]
    cases n.children[j]? with
    | none => rfl
    | some c => exact ih c

theorem child_of_nodeAt? (he : n.nodeAt? path = some e) (hd : n.nodeAt? (path ++ [i]) = some d) :
    e.children[i]? = some d := by
  rw [nodeAt?_snoc, he] at hd
  exact hd

/-- The siblings before a node are the children before it of the node above. -/
theorem siblingsBefore_snoc (own : List Node) (he : n.nodeAt? path = some e) (hd : e.children[i]? = some d) :
    n.siblingsBefore own (path ++ [i]) = (e.children.take i).reverse := by
  induction path generalizing n own with
  | nil =>
    obtain rfl : n = e := Option.some.inj he
    simp only [List.nil_append, siblingsBefore, hd, Option.map_some, Option.getD_some]
  | cons j path ih =>
    obtain ⟨c, hc, he⟩ := Option.bind_eq_some_iff.1 he
    simp only [List.cons_append, siblingsBefore, hc, Option.map_some, Option.getD_some]
    exact ih _ he

end Syntax.Node

namespace Chunk

open Syntax Text

/-- The documentation of a declaration in place of a node, by the comments above it. -/
def docAbove? (src : Source) (n : Node) (before : List Node) : Option Doc :=
  commentDoc? src (commentsAbove src (n.startRow src) [] before)

/-- Nothing is taken from above a sibling that is neither a comment nor an attribute. -/
theorem docAbove?_cons {src : Source} {n p : Node} {before : List Node} (hc : isComment p = false)
    (ha : p.kind ≠ "attribute_item") : docAbove? src n (p :: before) = none := by
  have hnone : commentsAbove src (n.startRow src) [] (p :: before) = [] := by
    simp only [commentsAbove, hc, beq_false_of_ne ha, Bool.false_eq_true, if_false, ite_self]
  rw [docAbove?, hnone]
  rfl

namespace Survey

variable {s : Survey} {root e d : Node} {path : List Nat} {i : Nat}

theorem docAt?_snoc (he : root.nodeAt? path = some e) (hd : e.children[i]? = some d) :
    s.docAt? [] root (path ++ [i]) d =
      leadingDoc? s.source s.language ⟨e, root.siblingsBefore [] path, (e.children.take i).reverse⟩ d := by
  rw [docAt?, List.dropLast_concat, he, Option.bind_some, Node.siblingsBefore_snoc [] he hd]

/-- A declaration that is reached is among the symbols, with the documentation of its place. -/
theorem symbolAt?_of_reaches (hd : root.Reaches path d) (hc : s.isChunkable d = true)
    (hk : d.kind ≠ "decorated_definition") :
    ∃ symbol ∈ (s.declarations root).1, s.symbolAt? [] root path = some symbol ∧
      symbol.doc = (s.docAt? [] root path d).map (·.text) := by
  have hsymbol : s.symbolAt? [] root path = some (s.symbolOf (s.docAt? [] root path d) d) :=
    symbolAt?_eq_some.2 ⟨d, hd.found, ⟨hc, hk⟩, rfl⟩
  refine ⟨_, ?_, hsymbol, rfl⟩
  rw [declarations_eq]
  exact List.mem_filterMap.2 ⟨path, Node.mem_reached.2 ⟨d, hd⟩, hsymbol⟩

/-- A region begins with the documentation of its place, if that is above the declaration. -/
theorem regionAt?_of_reaches {region : Region} (hd : root.Reaches path d)
    (hr : s.regionAt? [] root path = some region) :
    region ∈ (s.declarations root).2 ∧
      region.startLine = ((s.docAt? [] root path d).map (min ·.startLine (nodeLines s.source s.lineCount d).1)).getD
        (nodeLines s.source s.lineCount d).1 := by
  constructor
  · rw [declarations_eq]
    exact List.mem_filterMap.2 ⟨path, Node.mem_reached.2 ⟨d, hd⟩, hr⟩
  · obtain ⟨d', hd', -, rfl⟩ := regionAt?_eq_some.1 hr
    obtain rfl : d = d' := Option.some.inj (hd.found.symm.trans hd')
    rfl

/-- A child of an export statement is documented from above the statement if it is the first, else from above itself. -/
theorem docAt?_exported (hl : s.language ≠ .python) (he : root.nodeAt? path = some e)
    (hk : e.kind = "export_statement") (hd : e.children[i]? = some d) :
    s.docAt? [] root (path ++ [i]) d =
      if i = 0 then docAbove? s.source e (root.siblingsBefore [] path)
      else docAbove? s.source d (e.children.take i).reverse := by
  have hfirst : (e.children.take i).reverse.isEmpty = true ↔ i = 0 := by
    have hlt := (List.getElem?_eq_some_iff.1 hd).1
    rw [List.isEmpty_iff, List.reverse_eq_nil_iff, List.take_eq_nil_iff, or_iff_left]
    exact List.ne_nil_of_length_pos (Nat.zero_lt_of_lt hlt)
  rw [docAt?_snoc he hd, leadingDoc?, if_neg hl, hk, beq_self_eq_true, Bool.true_and]
  by_cases hi : i = 0
  · rw [if_pos (hfirst.2 hi), if_pos hi]
    rfl
  · rw [if_neg fun h => hi (hfirst.1 h), if_neg hi]
    rfl

/-- Siblings make no difference to a docstring. -/
theorem docAt?_python (hl : s.language = .python) (hd : root.Reaches path d) :
    s.docAt? [] root path d = docstring? s.source d := by
  obtain ⟨above, i, rfl⟩ := (List.eq_nil_or_concat' path).resolve_left hd.below
  have hfound := hd.found
  rw [Node.nodeAt?_snoc] at hfound
  obtain ⟨e, he, hc⟩ := Option.bind_eq_some_iff.1 hfound
  rw [docAt?_snoc he hc, leadingDoc?, if_pos hl]

end Survey

/-- A string literal as it is written: perhaps a mark, a quote once or three times on both sides, and a body between
these that has no quote at its ends and is not blank. -/
structure Literal where
  mark : String
  quote : Char
  times : Nat
  body : String
  mark_legal : mark ∈ ["", "r", "R", "u", "U"]
  quote_legal : quote = '"' ∨ quote = '\''
  times_legal : times = 1 ∨ times = 3
  body_bare : Bare isQuote body.toList
  body_text : isBlankText body = false

namespace Literal

variable (f : Literal)

def quotes : String := .ofList (List.replicate f.times f.quote)

def text : String := f.mark ++ f.quotes ++ f.body ++ f.quotes

/-- The body as it is documented: trimmed, or with its mark and the opening quotes before it. -/
def shown : String := if f.mark = "" then trim f.body else f.mark ++ f.quotes ++ trimEnd f.body

theorem isQuote_quotes : ∀ c ∈ f.quotes.toList, isQuote c = true := by
  intro c hc
  rw [quotes, String.toList_ofList] at hc
  rw [(List.mem_replicate.1 hc).2]
  rcases f.quote_legal with h | h <;> rw [h] <;> decide

theorem body_ne : f.body ≠ "" := by
  intro h
  have htext := f.body_text
  rw [h] at htext
  cases htext

/-- A mark is a letter. -/
theorem head?_mark (hm : f.mark ≠ "") :
    ∀ c ∈ (f.mark ++ f.quotes).toList.head?, isQuote c = false ∧ isBlank c = false := by
  intro c hc
  rw [head?_toList_append hm] at hc
  have hlegal : ["", "r", "R", "u", "U"].all fun mark => mark.toList.head?.all fun c => !isQuote c && !isBlank c := by
    decide
  have hletter := (Option.all_eq_true _ _).1 (List.all_eq_true.1 hlegal f.mark f.mark_legal) c hc
  simpa using hletter

/-- Quotes are stripped at both ends of a literal, but a mark stands before the first. -/
theorem strip_text : String.ofList (strip isQuote f.text.toList) =
    if f.mark = "" then f.body else f.mark ++ f.quotes ++ f.body := by
  by_cases hm : f.mark = ""
  · have hpad := strip_pad f.isQuote_quotes f.isQuote_quotes f.body_bare
    rw [if_pos hm, text, hm, String.empty_append, String.toList_append, String.toList_append, hpad,
      String.ofList_toList]
  · have hbare : Bare isQuote (f.mark ++ f.quotes ++ f.body).toList := by
      refine ⟨fun c hc => (f.head?_mark hm c ?_).1, fun c hc => f.body_bare.last c ?_⟩
      · rwa [head?_toList_append fun he => hm (String.append_eq_empty_iff.1 he).1] at hc
      · rwa [String.toList_append, List.getLast?_append_of_ne_nil _ (mt String.toList_eq_nil_iff.1 f.body_ne)] at hc
    have hfront : ∀ c ∈ ([] : List Char), isQuote c = true := by simp
    have hpad := strip_pad hfront f.isQuote_quotes hbare
    rw [if_neg hm, text, String.toList_append, ← List.nil_append (f.mark ++ f.quotes ++ f.body).toList, hpad,
      String.ofList_toList]

theorem trim_strip_text : trim (.ofList (strip isQuote f.text.toList)) = f.shown := by
  rw [strip_text, shown]
  by_cases hm : f.mark = ""
  · rw [if_pos hm, if_pos hm]
  · rw [if_neg hm, if_neg hm]
    refine trim_append (fun c hc => (f.head?_mark hm c hc).2) (fun he => hm ?_) f.body_text
    exact (String.append_eq_empty_iff.1 he).1

theorem isEmpty_shown : f.shown.isEmpty = false := by
  unfold shown
  split
  · exact isEmpty_trim f.body_text
  · rename_i hm
    rw [← Bool.not_eq_true, String.isEmpty_iff]
    intro he
    exact hm (String.append_eq_empty_iff.1 (String.append_eq_empty_iff.1 he).1).1

/-- The body alone is shown just when there is no mark. -/
theorem shown_eq_trim_iff : f.shown = trim f.body ↔ f.mark = "" := by
  unfold shown
  by_cases hm : f.mark = ""
  · rw [if_pos hm]
    exact iff_of_true rfl hm
  · rw [if_neg hm]
    refine iff_of_false (fun he => ?_) hm
    have hlength := congrArg String.length he
    have hle := length_trim_le f.body
    have hpos : f.mark.length ≠ 0 := fun h => hm (String.length_eq_zero_iff.1 h)
    rw [String.length_append, String.length_append] at hlength
    omega

end Literal

/-- A definition whose body begins with a string as a statement. -/
structure Opens (d body first string : Node) : Prop where
  hasBody : ((d.child? .definition).getD d).child? .body = some body
  begins : body.firstNamed? = some first
  isStatement : first.kind = "expression_statement"
  holds : first.firstNamed? = some string
  isString : string.kind = "string"

theorem Opens.docstring? {src : Source} {d body first string : Node} (h : Opens d body first string) {f : Literal}
    (ht : string.text src = f.text) : docstring? src d = some ⟨f.shown, d.startRow src + 1⟩ := by
  simp only [Chunk.docstring?, h.hasBody, h.begins, h.isStatement, h.holds, h.isString, ht, f.trim_strip_text,
    f.isEmpty_shown, bne_self_eq_false, Bool.false_eq_true, if_false, Option.bind_eq_bind, Option.bind_some]

/-- A declaration in an export statement is documented by the comments above the statement if it is the first child
there. One that follows a token is documented by the comments after that only, and its region begins with these. -/
theorem exported_docs (s : Survey) (hl : s.language = .javascript ∨ s.language = .typescript) {root e d : Node}
    {path : List Nat} {i : Nat} (he : root.nodeAt? path = some e) (hk : e.kind = "export_statement")
    (hd : root.Reaches (path ++ [i]) d) (hc : s.isChunkable d = true) :
    let above := docAbove? s.source e (root.siblingsBefore [] path)
    let inside := docAbove? s.source d (e.children.take i).reverse
    let doc := if i = 0 then above else inside
    let first := (nodeLines s.source s.lineCount d).1
    (∃ symbol ∈ (s.declarations root).1, s.symbolAt? [] root (path ++ [i]) = some symbol ∧
        symbol.doc = doc.map (·.text)) ∧
      (∀ region, s.regionAt? [] root (path ++ [i]) = some region → region ∈ (s.declarations root).2 ∧
        region.startLine = (doc.map (min ·.startLine first)).getD first) ∧
      (∀ token, e.children.head? = some token → token.named = false → doc = inside) ∧
      ∀ p, (e.children.take i).getLast? = some p → isComment p = false → p.kind ≠ "attribute_item" → inside = none := by
  intro above inside doc first
  have hpython : s.language ≠ .python := by
    rcases hl with h | h <;> rw [h] <;> decide
  have hchild : e.children[i]? = some d := Node.child_of_nodeAt? he hd.found
  have hdoc : s.docAt? [] root (path ++ [i]) d = doc := Survey.docAt?_exported hpython he hk hchild
  have hplain : d.kind ≠ "decorated_definition" := by
    intro hdecorated
    rw [Survey.isChunkable, hdecorated] at hc
    rcases hl with h | h <;> rw [h] at hc <;> revert hc <;> decide
  refine ⟨?_, fun region hr => ?_, fun token ht hn => ?_, fun p hp hcomment hattribute => ?_⟩
  · rw [← hdoc]
    exact Survey.symbolAt?_of_reaches hd hc hplain
  · rw [← hdoc]
    exact Survey.regionAt?_of_reaches hd hr
  · refine if_neg fun hi => ?_
    rw [hi, ← List.head?_eq_getElem?, ht] at hchild
    have hnamed := hd.named (path ++ [i]) d (by simp) List.prefix_rfl hd.found
    rw [← Option.some.inj hchild, hn] at hnamed
    cases hnamed
  · obtain ⟨front, hfront⟩ := List.getLast?_eq_some_iff.1 hp
    change docAbove? s.source d (e.children.take i).reverse = none
    rw [hfront, List.reverse_concat]
    exact docAbove?_cons hcomment hattribute

/-- A function of twelve lines that is exported, below a comment. -/
def exportedSource : Source :=
  .ofString ("/** Doc. */\nexport function f() \x7b" ++ .ofList (List.replicate 11 '\n') ++ "\x7d\n")

def exportedFunction : Node := .mk "function_declaration" true (some .declaration) 19 45 []

def exportStatement : Node :=
  .mk "export_statement" true none 12 45 [.mk "export" false none 12 18 [], exportedFunction]

def exportedTree : Node := .mk "program" true none 0 46 [.mk "comment" true none 0 11 [], exportStatement]

theorem exported_docs_function :
    let s : Survey := ⟨exportedSource, .javascript, 13⟩
    exportedTree.nodeAt? [1] = some exportStatement ∧ exportStatement.kind = "export_statement" ∧
      exportedTree.Reaches [1, 1] exportedFunction ∧ s.isChunkable exportedFunction = true ∧
      ∃ symbol ∈ (s.declarations exportedTree).1, symbol.doc = none := by
  have hstatement : exportedTree.nodeAt? [1] = some exportStatement := rfl
  have hreaches : exportedTree.Reaches ([1] ++ [1]) exportedFunction :=
    (Node.reaches_cons (List.cons_ne_nil _ _)).2 ⟨exportStatement, rfl, rfl, Node.reaches_singleton.2 ⟨rfl, rfl⟩⟩
  obtain ⟨⟨symbol, hm, -, hdoc⟩, -, hinside, hnone⟩ :=
    exported_docs ⟨exportedSource, .javascript, 13⟩ (.inl rfl) hstatement rfl hreaches (by decide)
  refine ⟨hstatement, rfl, hreaches, by decide, symbol, hm, ?_⟩
  rw [hinside _ rfl rfl, hnone _ rfl (by decide) (by decide)] at hdoc
  exact hdoc

/-- The comment would document a declaration in place of the statement, but the function has no documentation, and its
region begins below the comment. -/
theorem exported_undocumented :
    let s : Survey := ⟨exportedSource, .javascript, 13⟩
    docAbove? s.source exportStatement (exportedTree.siblingsBefore [] [1]) = some ⟨"Doc.", 1⟩ ∧
      (s.declarations exportedTree).1.map (·.doc) = [none] ∧
      (s.declarations exportedTree).2.map (·.startLine) = [2] := by
  decide +kernel

/-- A definition whose body begins with a string is documented by the trimmed body of that string just when the string
has no mark. With one, the mark and the opening quotes are documented as well. -/
theorem docstring_shown (s : Survey) (hl : s.language = .python) {root d body first string : Node} {path : List Nat}
    (hd : root.Reaches path d) (hc : s.isChunkable d = true) (hk : d.kind ≠ "decorated_definition")
    (ho : Opens d body first string) (f : Literal) (ht : string.text s.source = f.text) :
    ∃ symbol ∈ (s.declarations root).1, s.symbolAt? [] root path = some symbol ∧ symbol.doc = some f.shown ∧
      (symbol.doc = some (trim f.body) ↔ f.mark = "") := by
  obtain ⟨symbol, hm, hsymbol, hdoc⟩ := Survey.symbolAt?_of_reaches hd hc hk
  rw [Survey.docAt?_python hl hd, ho.docstring? ht, Option.map_some] at hdoc
  refine ⟨symbol, hm, hsymbol, hdoc, ?_⟩
  rw [hdoc, Option.some.injEq]
  exact f.shown_eq_trim_iff

/-- Two functions with docstrings, the second with a mark. -/
def docstringSource : Source := .ofString "def f():\n    ''' One. '''\ndef g():\n    r\"\"\"Two.\"\"\"\n"

def docstringOf (start stop : Nat) : Node := .mk "string" true none start stop []

def docstringStatement (start stop : Nat) : Node :=
  .mk "expression_statement" true none start stop [docstringOf start stop]

def docstringBlock (start stop : Nat) : Node :=
  .mk "block" true (some .body) start stop [docstringStatement start stop]

def plainFunction : Node := .mk "function_definition" true none 0 25 [docstringBlock 13 25]

def markedFunction : Node := .mk "function_definition" true none 26 50 [docstringBlock 39 50]

def docstringTree : Node := .mk "module" true none 0 51 [plainFunction, markedFunction]

def plainLiteral : Literal where
  mark := ""
  quote := '\''
  times := 3
  body := " One. "
  mark_legal := by decide
  quote_legal := by decide
  times_legal := by decide
  body_bare := by decide
  body_text := by decide

def markedLiteral : Literal where
  mark := "r"
  quote := '"'
  times := 3
  body := "Two."
  mark_legal := by decide
  quote_legal := by decide
  times_legal := by decide
  body_bare := by decide
  body_text := by decide

theorem docstring_shown_plain :
    let s : Survey := ⟨docstringSource, .python, 4⟩
    docstringTree.Reaches [0] plainFunction ∧ s.isChunkable plainFunction = true ∧
      plainFunction.kind ≠ "decorated_definition" ∧
      Opens plainFunction (docstringBlock 13 25) (docstringStatement 13 25) (docstringOf 13 25) ∧
      (docstringOf 13 25).text s.source = plainLiteral.text ∧
      ∃ symbol ∈ (s.declarations docstringTree).1, symbol.doc = some (trim plainLiteral.body) := by
  intro s
  have hreaches : docstringTree.Reaches [0] plainFunction := Node.reaches_singleton.2 ⟨rfl, rfl⟩
  have hopens : Opens plainFunction (docstringBlock 13 25) (docstringStatement 13 25) (docstringOf 13 25) :=
    ⟨rfl, rfl, rfl, rfl, rfl⟩
  have htext : (docstringOf 13 25).text s.source = plainLiteral.text := by decide +kernel
  obtain ⟨symbol, hm, -, -, hdoc⟩ := docstring_shown s rfl hreaches (by decide) (by decide) hopens plainLiteral htext
  exact ⟨hreaches, by decide, by decide, hopens, htext, symbol, hm, hdoc.2 rfl⟩

/-- A mark is documented together with the quotes behind it. -/
theorem marked_docstring :
    let s : Survey := ⟨docstringSource, .python, 4⟩
    (docstringOf 39 50).text s.source = markedLiteral.text ∧
      (s.declarations docstringTree).1.map (·.doc) = [some "One.", some "r\"\"\"Two."] ∧
      some (trim markedLiteral.body) ∉ (s.declarations docstringTree).1.map (·.doc) := by
  decide +kernel

end Chunk

end CodeIndex
