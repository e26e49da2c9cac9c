import CodeIndex.Proofs.Isolation
import CodeIndex.Proofs.Store.Sorted

/-!
What an index of words holds for a project, told by the history of the project alone. The paths stand in the order in
which each was first indexed since it was last removed, and each has the entries of its last indexing. A search ranks
these entries, and equal scores stay in that order.
-/

namespace CodeIndex.Lexical

open Number

/-- What is done to a path of a project, or to all of them. -/
inductive Stroke where
  | put (path : String) (entries : List Entry)
  | drop (path : String)
  | wipe

/-- A path loses its entries. -/
def Stroke.Removes (path : String) : Stroke → Prop
  | put .. => False
  | drop path' => path' = path
  | wipe => True

/-- A path gets entries or loses them. -/
def Stroke.Touches (path : String) : Stroke → Prop
  | put path' _ | drop path' => path' = path
  | wipe => True

/-- The entries of all records with a path. -/
def entriesAt (records : List Record) (path : String) : List Entry :=
  (records.filter (·.path == path)).map Entry.ofRecord

/-- What an edit does to its project. Of records each puts all that have its path. -/
def Edit.strokes : Edit → List Stroke
  | file _ path chunks symbols => [.put path (Index.wordsOf path chunks symbols)]
  | records _ rs => rs.map fun r => .put r.path (entriesAt rs r.path)
  | remove _ path => [.drop path]
  | clear _ => [.wipe]

/-- What edits do to one project. -/
def history (project : String) (edits : List Edit) : List Stroke :=
  (edits.filter (·.project == project)).flatMap Edit.strokes

/-- A path is indexed with these entries, by the last stroke that touches it. -/
def Latest (h : List Stroke) (path : String) (entries : List Entry) : Prop :=
  ∃ before after, h = before ++ .put path entries :: after ∧ ∀ x ∈ after, ¬x.Touches path

/-- A path came at some time and has stayed: it was indexed then and is not removed later, and whenever it was indexed
before, it was removed in between. -/
def Entered (h : List Stroke) (path : String) (time : Nat) : Prop :=
  ∃ before entries after, h = before ++ .put path entries :: after ∧ before.length = time ∧
    (∀ x ∈ after, ¬x.Removes path) ∧
    ∀ earlier old between, before = earlier ++ .put path old :: between → ∃ x ∈ between, x.Removes path

/-- Paths in the order in which they came. -/
structure Chronological (h : List Stroke) (paths : List String) : Prop where
  entered : ∀ p ∈ paths, ∃ time, Entered h p time
  earlier : paths.Pairwise fun p q => ∃ t u, Entered h p t ∧ Entered h q u ∧ t < u

section

variable {h : List Stroke} {x : Stroke} {path : String} {entries : List Entry} {time : Nat} {paths order : List String}

theorem not_latest_nil : ¬Latest [] path entries := by
  rintro ⟨before, after, he, -⟩
  exact List.cons_ne_nil _ _ (List.append_eq_nil_iff.1 he.symm).2

/-- A stroke of a history with one more is that one, or was there before. -/
theorem split_concat {y : Stroke} {before after : List Stroke} (he : h ++ [x] = before ++ y :: after) :
    after = [] ∧ h = before ∧ x = y ∨ ∃ rest, after = rest ++ [x] ∧ h = before ++ y :: rest := by
  rcases List.eq_nil_or_concat after with rfl | ⟨rest, z, rfl⟩
  · obtain ⟨rfl, hxy⟩ := List.append_inj' he rfl
    exact .inl ⟨rfl, rfl, (List.cons.inj hxy).1⟩
  · rw [List.concat_eq_append, ← List.cons_append, ← List.append_assoc] at he
    obtain ⟨rfl, hxz⟩ := List.append_inj' he rfl
    rw [List.concat_eq_append, (List.cons.inj hxz).1]
    exact .inr ⟨rest, rfl, rfl⟩

theorem latest_concat :
    Latest (h ++ [x]) path entries ↔ x = .put path entries ∨ ¬x.Touches path ∧ Latest h path entries := by
  constructor
  · rintro ⟨before, after, he, hafter⟩
    obtain ⟨-, -, hx⟩ | ⟨rest, rfl, rfl⟩ := split_concat he
    · exact .inl hx
    · exact .inr ⟨hafter x (by simp), before, rest, rfl, fun z hz => hafter z (List.mem_append_left _ hz)⟩
  · rintro (rfl | ⟨hx, before, after, rfl, hafter⟩)
    · exact ⟨h, [], rfl, nofun⟩
    · exact ⟨before, after ++ [x], by simp, List.forall_mem_append.2 ⟨hafter, List.forall_mem_singleton.2 hx⟩⟩

/-- A path that was indexed once and not removed since has the entries of its last indexing. -/
theorem exists_latest (hput : ∃ before es after, h = before ++ .put path es :: after ∧ ∀ x ∈ after, ¬x.Removes path) :
    ∃ entries, Latest h path entries := by
  induction h using List.reverseRecOn with
  | nil =>
    obtain ⟨before, es, after, he, -⟩ := hput
    exact absurd (List.append_eq_nil_iff.1 he.symm).2 (List.cons_ne_nil _ _)
  | append_singleton h x ih =>
    obtain ⟨before, es, after, he, hafter⟩ := hput
    obtain ⟨-, -, hx⟩ | ⟨rest, rfl, hrest⟩ := split_concat he
    · exact ⟨es, latest_concat.2 (.inl hx)⟩
    · have hremoves : ¬x.Removes path := hafter x (by simp)
      obtain ⟨entries, hlatest⟩ := ih ⟨before, es, rest, hrest, fun z hz => hafter z (List.mem_append_left _ hz)⟩
      by_cases hx : x.Touches path
      · -- only a later indexing touches it
        cases x with
        | put path' es' =>
          obtain rfl : path' = path := hx
          exact ⟨es', latest_concat.2 (.inl rfl)⟩
        | drop | wipe => exact absurd hx hremoves
      · exact ⟨entries, latest_concat.2 (.inr ⟨hx, hlatest⟩)⟩

theorem Entered.concat (he : Entered h path time) (hx : ¬x.Removes path) : Entered (h ++ [x]) path time := by
  obtain ⟨before, entries, after, rfl, hlength, hafter, hbefore⟩ := he
  have hlater := List.forall_mem_append.2 ⟨hafter, List.forall_mem_singleton.2 hx⟩
  exact ⟨before, entries, after ++ [x], by simp, hlength, hlater, hbefore⟩

theorem Entered.lt_length (he : Entered h path time) : time < h.length := by
  obtain ⟨before, entries, after, rfl, rfl, -⟩ := he
  simp

/-- A path that is not indexed comes when it is. -/
theorem entered_concat (hnew : ¬∃ entries, Latest h path entries) (entries : List Entry) :
    Entered (h ++ [.put path entries]) path h.length := by
  refine ⟨h, entries, [], rfl, rfl, nofun, fun earlier old between he => ?_⟩
  by_contra hkept
  exact hnew (exists_latest ⟨earlier, old, between, he, fun x hx hr => hkept ⟨x, hx, hr⟩⟩)

/-- Paths that are not removed keep their order. -/
theorem Chronological.stays (hc : Chronological h order) (hsub : paths.Sublist order)
    (hx : ∀ p ∈ paths, ¬x.Removes p) : Chronological (h ++ [x]) paths := by
  refine ⟨fun p hp => ?_, (hc.earlier.sublist hsub).imp_of_mem fun hp hq hpq => ?_⟩
  · obtain ⟨t, ht⟩ := hc.entered p (hsub.subset hp)
    exact ⟨t, ht.concat (hx p hp)⟩
  · obtain ⟨t, u, ht, hu, htu⟩ := hpq
    exact ⟨t, u, ht.concat (hx _ hp), hu.concat (hx _ hq), htu⟩

/-- A path that comes is the last. -/
theorem Chronological.enters (hc : Chronological h order) (hnew : ¬∃ entries, Latest h path entries)
    (entries : List Entry) : Chronological (h ++ [.put path entries]) (order ++ [path]) := by
  have hold : Chronological (h ++ [.put path entries]) order := hc.stays (.refl order) fun _ _ => nofun
  have hlast := entered_concat hnew entries
  refine ⟨List.forall_mem_append.2 ⟨hold.entered, List.forall_mem_singleton.2 ⟨h.length, hlast⟩⟩,
    List.pairwise_append.2 ⟨hold.earlier, List.pairwise_singleton .., fun p hp q hq => ?_⟩⟩
  obtain ⟨t, ht⟩ := hc.entered p hp
  obtain rfl := List.mem_singleton.1 hq
  exact ⟨t, h.length, ht.concat nofun, hlast, ht.lt_length⟩

end

namespace Shelf

variable {s : Shelf} {h : List Stroke} {path : String} {entries : List Entry}

def strike (s : Shelf) : Stroke → Shelf
  | .put path entries => s.replace path entries
  | .drop path => s.remove path
  | .wipe => empty

/-- A shelf after all that was done to its project. -/
def after (h : List Stroke) : Shelf := h.foldl strike empty

theorem after_concat (h : List Stroke) (x : Stroke) : after (h ++ [x]) = (after h).strike x := by
  rw [after, List.foldl_append]
  rfl

/-- What is kept for a path is what its last indexing gave it. -/
theorem lookup_after (h : List Stroke) (path : String) (entries : List Entry) :
    (after h).files.lookup path = some entries ↔ Latest h path entries := by
  induction h using List.reverseRecOn with
  | nil => exact ⟨nofun, fun hl => (not_latest_nil hl).elim⟩
  | append_singleton h x ih =>
    rw [after_concat, latest_concat, ← ih]
    cases x with
    | put path' entries' =>
      rw [strike, lookup_replace]
      by_cases hp : path = path'
      · simp [hp, Stroke.Touches]
      · simp [hp, Stroke.Touches, Ne.symm hp]
    | drop path' =>
      rw [strike, lookup_remove]
      by_cases hp : path = path'
      · simp [hp, Stroke.Touches]
      · simp [hp, Stroke.Touches, Ne.symm hp]
    | wipe => simp [strike, empty, Stroke.Touches]

theorem mem_order_after : path ∈ (after h).order ↔ ∃ entries, Latest h path entries := by
  rw [mem_order_iff, Option.isSome_iff_exists]
  exact exists_congr fun entries => lookup_after h path entries

theorem chronological_after (h : List Stroke) : Chronological h (after h).order := by
  induction h using List.reverseRecOn with
  | nil => exact ⟨nofun, .nil⟩
  | append_singleton h x ih =>
    rw [after_concat]
    cases x with
    | put path entries =>
      by_cases hp : (after h).files.any (·.1 == path) = true
      · rw [show ((after h).strike (.put path entries)).order = (after h).order from if_pos hp]
        exact ih.stays (.refl _) fun _ _ => nofun
      · rw [show ((after h).strike (.put path entries)).order = (after h).order ++ [path] from if_neg hp]
        rw [← mem_order, mem_order_after] at hp
        exact ih.enters hp entries
    | drop path =>
      rw [strike, order_remove]
      refine ih.stays List.filter_sublist fun p hp hr => ?_
      have hne : p ≠ path := by simpa using (List.mem_filter.1 hp).2
      exact hne hr.symm
    | wipe => exact ⟨nofun, .nil⟩

/-- The entries of the paths, each in the version of its last indexing. -/
theorem kept_after (h : List Stroke) :
    List.Forall₂ (Latest h) (after h).order ((after h).order.filterMap fun path => (after h).files.lookup path) := by
  have hall : ∀ paths : List String, (∀ path ∈ paths, path ∈ (after h).order) →
      List.Forall₂ (Latest h) paths (paths.filterMap fun path => (after h).files.lookup path) := by
    intro paths hpaths
    induction paths with
    | nil => exact .nil
    | cons path paths ih =>
      obtain ⟨entries, hlatest⟩ := mem_order_after.1 (hpaths path List.mem_cons_self)
      have hrest := ih fun q hq => hpaths q (List.mem_cons_of_mem path hq)
      rw [List.filterMap_cons, (lookup_after h path entries).2 hlatest]
      exact .cons hlatest hrest
  exact hall _ fun _ hp => hp

/-- A path that is given what it has stays as it is. -/
theorem replace_same (h : s.files.lookup path = some entries) : s.replace path entries = s := by
  have hany : s.files.any (·.1 == path) = true := by
    rw [← mem_order, mem_order_iff, h]
    rfl
  refine Shelf.ext (if_pos hany) ?_
  have hmap : assign s.files path entries = s.files.map fun f => if f.1 == path then (f.1, entries) else f := if_pos hany
  refine hmap.trans ((List.map_congr_left fun f hf => ?_).trans (List.map_id _))
  split
  · rename_i hp
    obtain rfl := beq_iff_eq.1 hp
    have hf := lookup_of_mem (s.known.nodup_iff.1 s.nodup) hf
    rw [h] at hf
    exact Prod.ext rfl (Option.some.inj hf)
  · rfl

/-- Files that are filled one after the other: each path has what it was given. -/
theorem lookup_fill (paths : List String) (g : String → List Entry) (s : Shelf) (hp : path ∈ paths) :
    (paths.foldl (fun s p => s.replace p (g p)) s).files.lookup path = some (g path) := by
  induction paths using List.reverseRecOn with
  | nil => cases hp
  | append_singleton paths p ih =>
    rw [List.foldl_append, List.foldl_cons, List.foldl_nil, lookup_replace]
    split
    · rename_i he
      rw [he]
    · rename_i hne
      exact ih ((List.mem_append.1 hp).resolve_right fun hp => hne (List.mem_singleton.1 hp))

end Shelf

namespace Index

open Lexical.Shelf

/-- Records that fill their paths one after the other do so path by path. -/
theorem foldl_gather (records : List Record) (g : String → List Entry) (s : Shelf) :
    ((gather records).map (·.1)).foldl (fun s p => s.replace p (g p)) s =
      records.foldl (fun s r => s.replace r.path (g r.path)) s := by
  induction records using List.reverseRecOn with
  | nil => rfl
  | append_singleton records r ih =>
    rw [gather_append, keys_gathered, List.foldl_append, ← ih]
    split
    · rename_i hany
      exact (replace_same (lookup_fill _ g s (any_iff_mem.1 hany))).symm
    · rw [List.foldl_append]
      rfl

theorem mem_gather {records : List Record} {f : String × List Entry} (hf : f ∈ gather records) :
    f.2 = entriesAt records f.1 := by
  have hlookup := lookup_of_mem (nodup_gather records) hf
  rw [lookup_gather] at hlookup
  split at hlookup
  · cases hlookup
  · exact (Option.some.inj hlookup).symm

/-- An edit strikes the shelf of its project. -/
theorem shelf_edit_self (ix : Index) (e : Edit) :
    (ix.edit e).shelf e.project = e.strokes.foldl strike (ix.shelf e.project) := by
  cases e with
  | file project path chunks symbols | remove project path => exact (shelf_setShelf ..).trans (if_pos rfl)
  | records project records =>
    refine (shelf_setShelf ..).trans ((if_pos rfl).trans ?_)
    rw [Edit.strokes, List.foldl_map]
    refine Eq.trans ?_ (foldl_gather records (entriesAt records) _)
    rw [List.foldl_map]
    refine List.foldl_ext _ _ _ fun s f hf => ?_
    rw [mem_gather hf]
  | clear project =>
    have hlookup := lookup_filter (· != project) ix.projects project
    rw [if_neg (by simp)] at hlookup
    refine (shelf_eq ..).trans ?_
    exact congrArg (Option.getD · empty) hlookup

/-- The shelf of a project is made by what was done to the project. -/
theorem shelf_edited_eq (edits : List Edit) (project : String) :
    (({} : Index).edited edits).shelf project = after (history project edits) := by
  have hfrom : ∀ ix : Index, (ix.edited edits).shelf project = (history project edits).foldl strike (ix.shelf project) := by
    induction edits with
    | nil => exact fun _ => rfl
    | cons e edits ih =>
      intro ix
      have hrest : (ix.edited (e :: edits)).shelf project = _ := ih (ix.edit e)
      rw [hrest]
      by_cases he : e.project = project
      · have hhistory : history project (e :: edits) = e.strokes ++ history project edits := by
          simp [history, he]
        rw [hhistory, List.foldl_append, ← he, shelf_edit_self]
      · have hhistory : history project (e :: edits) = history project edits := by simp [history, he]
        rw [hhistory, shelf_edit he]
  exact hfrom {}

end Index

/-- An entry matches if the query has words to look for and some of it is found. -/
def Query.hits (q : Query) (entries : List Entry) : List Hit :=
  entries.filterMap fun e => if q.terms = [] then none else (score? q e).map (⟨e, ·⟩)

/-- The second score is not the higher one. -/
def Hit.falls (a b : Hit) : Bool := b.score.totalLe a.score

/-- Hits in falling order of their scores, those with equal scores in the order that they had. -/
structure Ranked (hits ranked : List Hit) : Prop where
  perm : ranked.Perm hits
  falling : ranked.Pairwise fun a b => a.falls b = true
  stable : ∀ score : Single, ranked.filter (·.score = score) = hits.filter (·.score = score)

/-- Falling lists with the same hits of every score, in the same order, are the same. -/
theorem eq_of_falling {a b : List Hit} (ha : a.Pairwise fun x y => x.falls y = true)
    (hb : b.Pairwise fun x y => x.falls y = true)
    (h : ∀ score : Single, a.filter (·.score = score) = b.filter (·.score = score)) : a = b := by
  have hmem : ∀ {a b : List Hit}, (∀ score : Single, a.filter (·.score = score) = b.filter (·.score = score)) →
      ∀ x ∈ a, x ∈ b := by
    intro a b h x hx
    have hfilter : x ∈ a.filter (·.score = x.score) := List.mem_filter.2 ⟨hx, decide_eq_true rfl⟩
    rw [h] at hfilter
    exact List.mem_of_mem_filter hfilter
  induction a generalizing b with
  | nil =>
    cases b with
    | nil => rfl
    | cons y b => exact absurd (hmem (fun score => (h score).symm) y List.mem_cons_self) List.not_mem_nil
  | cons x a ih =>
    cases b with
    | nil => exact absurd (hmem h x List.mem_cons_self) List.not_mem_nil
    | cons y b =>
      rw [List.pairwise_cons] at ha hb
      -- both begin with the highest score, and so with the same hit of that score
      have hscore : x.score = y.score := by
        rcases List.mem_cons.1 (hmem h x List.mem_cons_self) with rfl | hx
        · rfl
        · rcases List.mem_cons.1 (hmem (fun score => (h score).symm) y List.mem_cons_self) with rfl | hy
          · rfl
          · exact Single.totalLe_antisymm (hb.1 x hx) (ha.1 y hy)
      have hhead := h x.score
      rw [List.filter_cons_of_pos (by simp), List.filter_cons_of_pos (by simp [hscore])] at hhead
      obtain ⟨rfl, -⟩ := List.cons.inj hhead
      have htail : ∀ score : Single, a.filter (·.score = score) = b.filter (·.score = score) := by
        intro score
        have hs := h score
        rw [List.filter_cons, List.filter_cons] at hs
        split at hs
        · exact (List.cons.inj hs).2
        · exact hs
      rw [ih ha.2 hb.2 htail]

theorem Ranked.unique {hits ranked other : List Hit} (h : Ranked hits other) (h' : Ranked hits ranked) :
    other = ranked :=
  eq_of_falling h.falling h'.falling fun score => (h.stable score).trans (h'.stable score).symm

/-- What a search finds is the front of a ranking. -/
theorem search_eq_take (ix : Index) (project text : String) (k : Nat) :
    ∃ ranked, Ranked ((Query.ofText text).hits (ix.entries project)) ranked ∧ search ix project text k = ranked.take k := by
  refine ⟨((Query.ofText text).hits (ix.entries project)).mergeSort Hit.falls,
    ⟨List.mergeSort_perm .., List.pairwise_mergeSort (falling_trans Hit.score) (falling_total Hit.score) _,
      filter_mergeSort_falling Hit.score _⟩, ?_⟩
  unfold search Query.hits
  by_cases hterms : (Query.ofText text).terms = []
  · simp [hterms]
  · by_cases hk : k = 0
    · simp [hk]
    · simp only [hterms, List.isEmpty_eq_false_iff.2 hterms, beq_eq_false_iff_ne.2 hk, Bool.or_self, Bool.false_eq_true,
        if_false]
      rfl

/-- Whatever was done to whatever projects: the paths of a project are those whose last stroke indexed them, each once,
in the order in which they came since they were last removed. The numbers are those of the entries of their last
indexings, and a search gives the first of these that match, ranked by score, in the order of the paths where scores are
equal. -/
theorem Index.edited_exact (edits : List Edit) (project : String) :
    let ix := ({} : Index).edited edits
    let h := history project edits
    (ix.files project).Nodup ∧
      (∀ path, path ∈ ix.files project ↔ ∃ entries, Latest h path entries) ∧
      Chronological h (ix.files project) ∧
      ∃ kept, List.Forall₂ (Latest h) (ix.files project) kept ∧
        ix.stats project =
          ⟨(ix.files project).length, kept.flatten.countP (·.source == .chunk), kept.flatten.countP (·.source == .symbol)⟩ ∧
        ∀ text k, ∃ ranked, Ranked ((Query.ofText text).hits kept.flatten) ranked ∧
          (∀ other, Ranked ((Query.ofText text).hits kept.flatten) other → other = ranked) ∧
          search ix project text k = ranked.take k := by
  intro ix h
  have hshelf : ix.shelf project = Shelf.after h := shelf_edited_eq edits project
  have hfiles : ix.files project = (Shelf.after h).order := congrArg Shelf.order hshelf
  have hentries : ix.entries project =
      ((Shelf.after h).order.filterMap fun path => (Shelf.after h).files.lookup path).flatten :=
    congrArg Shelf.entries hshelf
  rw [hfiles]
  refine ⟨(Shelf.after h).nodup, fun path => Shelf.mem_order_after, Shelf.chronological_after h, _, Shelf.kept_after h, ?_,
    fun text k => ?_⟩
  · rw [stats, hentries, hshelf, (Shelf.after h).known.length_eq, List.length_map]
  · rw [← hentries]
    obtain ⟨ranked, hranked, hsearch⟩ := search_eq_take ix project text k
    exact ⟨ranked, hranked, fun _ hother => hother.unique hranked, hsearch⟩

/-- A path that is indexed again stays in its place, and one that was removed before comes last. -/
example :
    (({} : Index).edited [.file "p" "a" [] [], .file "p" "b" [] [], .file "q" "b" [] [], .file "p" "c" [] [],
      .file "p" "a" [] [], .remove "p" "b", .file "p" "b" [] []]).files "p" = ["a", "c", "b"] := by
  decide +kernel

end CodeIndex.Lexical
