import CodeIndex.Proofs.Files.Trail
import Mathlib.Data.List.Nodup

/-!
What discovery finds in a tree whose directories give each entry a name of its own: no two files with the same
relative path, and each path in normal form.
-/

namespace CodeIndex

/-- A name that an entry of a directory can have; no slash of either kind is part of it. -/
structure IsName (name : String) : Prop where
  busy : Path.isIdle name.toList = false
  slash : '/' ∉ name.toList
  backslash : '\\' ∉ name.toList

namespace FileTree

mutual

/-- A tree with a name for each entry of a directory. -/
def Proper : FileTree → Prop
  | file .. => True
  | dir es => (es.map (·.1)).Nodup ∧ ProperEntries es

def ProperEntries : List (String × FileTree) → Prop
  | [] => True
  | (name, t) :: rest => IsName name ∧ t.Proper ∧ ProperEntries rest

end

mutual

/-- A tree whose directories give each entry a name of its own, of some kind. -/
def NamedBy (P : String → Prop) : FileTree → Prop
  | file .. => True
  | dir es => (es.map (·.1)).Nodup ∧ NamedByEntries P es

def NamedByEntries (P : String → Prop) : List (String × FileTree) → Prop
  | [] => True
  | (name, t) :: rest => P name ∧ t.NamedBy P ∧ NamedByEntries P rest

end

mutual

theorem Proper.namedBy : {t : FileTree} → t.Proper → t.NamedBy IsName
  | file .., _ => trivial
  | dir _, h => ⟨h.1, h.2.namedBy⟩

theorem ProperEntries.namedBy : {es : List (String × FileTree)} → ProperEntries es → NamedByEntries IsName es
  | [], _ => trivial
  | _ :: _, h => ⟨h.1, h.2.1.namedBy, h.2.2.namedBy⟩

end

variable {P : String → Prop}

theorem NamedByEntries.of_mem {es : List (String × FileTree)} (h : NamedByEntries P es) {e : String × FileTree}
    (he : e ∈ es) : P e.1 ∧ e.2.NamedBy P := by
  induction es with
  | nil => cases he
  | cons f es ih =>
    obtain ⟨hn, ht, hes⟩ := h
    rcases List.mem_cons.1 he with rfl | he
    · exact ⟨hn, ht⟩
    · exact ih hes he

theorem NamedByEntries.of_lookup {name : String} {es : List (String × FileTree)} {t : FileTree}
    (hes : NamedByEntries P es) (h : lookup name es = some t) : P name ∧ t.NamedBy P := by
  obtain ⟨e, he, rfl⟩ := Option.map_eq_some_iff.1 h
  have hname := List.find?_some he
  have hp := hes.of_mem (List.mem_of_find?_eq_some he)
  exact ⟨beq_iff_eq.1 hname ▸ hp.1, hp.2⟩

theorem Leads.namedBy {root t : FileTree} {trail : List (String × FileTree)} (h : Leads root trail t)
    (hr : root.NamedBy P) : (∀ name ∈ namesOn trail, P name) ∧ t.NamedBy P := by
  induction h with
  | start => exact ⟨nofun, hr⟩
  | @down trail t t' name _ _ hlookup ih =>
    obtain ⟨hnames, ht⟩ := ih
    cases t with
    | file => cases hlookup
    | dir es =>
      obtain ⟨hname, ht'⟩ := ht.2.of_lookup hlookup
      rw [namesOn_cons]
      exact ⟨List.forall_mem_append.2 ⟨hnames, List.forall_mem_singleton.2 hname⟩, ht'⟩

theorem resolve_namedBy {root t : FileTree} {path : String} {names : List String} (hr : root.NamedBy P)
    (h : root.resolve path = .ok (names, t)) : (∀ name ∈ names, P name) ∧ t.NamedBy P := by
  obtain ⟨-, trail, htrail, rfl⟩ := resolve_leads h
  exact htrail.namedBy hr

end FileTree

namespace Files

open FileTree

/-- What is found below some names, each under names of its own. -/
structure Walked (P : String → Prop) (names : List String) (found : List Found) (first : List String → Prop) : Prop where
  nodup : (found.map (·.names)).Nodup
  below : ∀ f ∈ found, ∃ below, f.names = names ++ below ∧ (∀ name ∈ below, P name) ∧ first below

variable {P : String → Prop}

mutual

theorem walk_walked (layers : List Layer) (names : List String) :
    (t : FileTree) → t.NamedBy P → Walked P names (walk layers names t) fun below => t.isDir = true → below ≠ []
  | .file .., _ => by
    refine ⟨List.nodup_singleton names, fun f hf => ⟨[], ?_, nofun, nofun⟩⟩
    rw [walk, List.mem_singleton] at hf
    rw [hf, List.append_nil]
  | .dir es, h => by
    rw [walk]
    have hw := walkEntries_walked (.ofDir names.length (.dir es) :: layers) names es h.1 h.2
    refine ⟨hw.nodup, fun f hf => ?_⟩
    obtain ⟨below, hn, hp, first, -, hfirst⟩ := hw.below f hf
    refine ⟨below, hn, hp, fun _ he => ?_⟩
    rw [he] at hfirst
    cases hfirst

theorem walkEntries_walked (layers : List Layer) (names : List String) :
    (es : List (String × FileTree)) → (es.map (·.1)).Nodup → NamedByEntries P es →
      Walked P names (walkEntries layers names es) fun below => ∃ name ∈ es.map (·.1), below.head? = some name
  | [], _, _ => ⟨List.nodup_nil, nofun⟩
  | (name, t) :: rest, hd, h => by
    obtain ⟨hn, ht, hrest⟩ := h
    obtain ⟨hnew, hd⟩ := List.nodup_cons.1 hd
    have hw := walkEntries_walked layers names rest hd hrest
    have hone : Walked P names
        (if isSkipped layers t.isDir (names ++ [name]) then [] else walk layers (names ++ [name]) t)
        fun below => below.head? = some name := by
      split
      · exact ⟨List.nodup_nil, nofun⟩
      · obtain ⟨hnodup, hbelow⟩ := walk_walked layers (names ++ [name]) t ht
        refine ⟨hnodup, fun f hf => ?_⟩
        obtain ⟨below, he, hp, -⟩ := hbelow f hf
        refine ⟨name :: below, ?_, fun m hm => ?_, rfl⟩
        · rw [he, List.append_assoc, List.singleton_append]
        · rcases List.mem_cons.1 hm with rfl | hm
          · exact hn
          · exact hp m hm
    rw [walkEntries]
    refine ⟨?_, fun f hf => ?_⟩
    · rw [List.map_append]
      refine hone.nodup.append hw.nodup fun ns h₁ h₂ => ?_
      -- names below one entry begin with its name
      obtain ⟨f, hf, rfl⟩ := List.mem_map.1 h₁
      obtain ⟨g, hg, he⟩ := List.mem_map.1 h₂
      obtain ⟨below, hb, -, hfirst⟩ := hone.below f hf
      obtain ⟨below', hb', -, m, hm, hfirst'⟩ := hw.below g hg
      rw [hb, hb'] at he
      rw [List.append_cancel_left he, hfirst] at hfirst'
      exact hnew (Option.some.inj hfirst' ▸ hm)
    · rcases List.mem_append.1 hf with hf | hf
      · obtain ⟨below, he, hp, hfirst⟩ := hone.below f hf
        exact ⟨below, he, hp, name, List.mem_cons_self, hfirst⟩
      · obtain ⟨below, he, hp, m, hm, hfirst⟩ := hw.below f hf
        exact ⟨below, he, hp, m, List.mem_cons_of_mem name hm, hfirst⟩

end

theorem lastPiece?_names {names : List String} (h : ∀ name ∈ names, IsName name) (hne : names ≠ []) :
    Path.lastPiece? (names.map String.toList) ≠ none := by
  obtain ⟨above, last, rfl⟩ := List.eq_nil_or_concat names |>.resolve_left hne
  rw [List.concat_eq_append, List.map_append, Path.lastPiece?_append, List.map_singleton, Path.lastPiece?_singleton,
    if_neg (by simp [(h last (by simp)).busy])]
  simp

theorem normalizePath_joined {names : List String} (h : ∀ name ∈ names, IsName name) :
    normalizePath ("/".intercalate names) = "/".intercalate names := by
  rw [joined_eq]
  refine normalizePath_ofPieces ?_ ?_ ?_
  · intro p hp
    obtain ⟨name, hn, rfl⟩ := List.mem_map.1 hp
    exact (h name hn).slash
  · intro p hp
    obtain ⟨name, hn, rfl⟩ := List.mem_map.1 hp
    exact (h name hn).backslash
  · intro p hp
    obtain ⟨name, hn, rfl⟩ := List.mem_map.1 (List.mem_of_head? hp)
    exact (h name hn).busy

/-- Different names make different paths. -/
theorem joined_inj {names names' : List String} (h : ∀ name ∈ names, IsName name) (hne : names ≠ [])
    (h' : ∀ name ∈ names', IsName name) (hne' : names' ≠ []) (he : "/".intercalate names = "/".intercalate names') :
    names = names' := by
  have hs := splitOn_joined (fun name hn => (h name hn).slash) hne
  rw [he, splitOn_joined (fun name hn => (h' name hn).slash) hne'] at hs
  exact (List.map_injective_iff.2 fun _ _ => String.toList_inj.1) hs.symm

/-- Discovery finds files below a directory, each at names of its own. -/
theorem discover?_places {root : FileTree} {dir : String} {rules : Ignore.Rules} {maxBytes : Nat}
    {files : List Discovered} (h : discover? root dir rules maxBytes = some files) (hr : root.NamedBy P) :
    ∃ above t, root.resolve dir = .ok (above, t) ∧ (∀ name ∈ above, P name) ∧
      ∃ places : List (List String × ByteArray × FileStat), (places.map (·.1)).Nodup ∧
        (∀ p ∈ places, p.1 ≠ [] ∧ ∀ name ∈ p.1, P name) ∧ files = places.map fun p =>
          ⟨pathOf (above ++ p.1), normalizePath ("/".intercalate p.1), p.2.1, p.2.2⟩ := by
  unfold discover? at h
  split at h
  · rename_i above es hres
    obtain ⟨habove, ht⟩ := resolve_namedBy hr hres
    have hw := walk_walked (layersAbove root above) above (.dir es) ht
    simp only [Option.some.injEq] at h
    generalize hfound : (walk (layersAbove root above) above (.dir es)).filter _ = found at h
    have hsub : found.Sublist (walk (layersAbove root above) above (.dir es)) := hfound ▸ List.filter_sublist
    have hbelow : ∀ f ∈ found, f.names = above ++ f.names.drop above.length ∧ f.names.drop above.length ≠ [] ∧
        ∀ name ∈ f.names.drop above.length, P name := by
      intro f hf
      obtain ⟨below, he, hp, hne⟩ := hw.below f (hsub.subset hf)
      have hdrop : f.names.drop above.length = below := by rw [he, List.drop_left]
      rw [hdrop]
      exact ⟨he, hne rfl, hp⟩
    refine ⟨above, .dir es, hres, habove, found.map fun f => (f.names.drop above.length, f.content, f.stat), ?_, ?_, ?_⟩
    · refine List.Nodup.of_map (above ++ ·) ?_
      have hnames : ((found.map fun f => (f.names.drop above.length, f.content, f.stat)).map (·.1)).map (above ++ ·) =
          found.map (·.names) := by
        rw [List.map_map, List.map_map]
        exact List.map_congr_left fun f hf => (hbelow f hf).1.symm
      rw [hnames]
      exact hw.nodup.sublist (hsub.map _)
    · intro p hp
      obtain ⟨f, hf, rfl⟩ := List.mem_map.1 hp
      exact (hbelow f hf).2
    · rw [List.map_map, ← h]
      refine List.map_congr_left fun f hf => ?_
      have hnames := (hbelow f hf).1
      simp only [Function.comp_apply]
      rw [← hnames]
  · cases h

/-- What is so of a file that takes part in indexing. -/
structure Discovered.Sound (f : Discovered) : Prop where
  normal : normalizePath f.rel = f.rel
  named : Path.lastPiece? (f.rel.toList.splitOn '/') ≠ none
  language : Language.ofPath? f.path = Language.ofPath? f.rel

theorem discover?_sound {root : FileTree} {dir : String} {rules : Ignore.Rules} {maxBytes : Nat}
    {files : List Discovered} (h : discover? root dir rules maxBytes = some files) (hr : root.Proper) :
    (files.map (·.rel)).Nodup ∧ ∀ f ∈ files, f.Sound := by
  obtain ⟨above, t, -, habove, places, hnodup, hplaces, rfl⟩ := discover?_places h hr.namedBy
  refine ⟨?_, fun f hf => ?_⟩
  · rw [List.map_map]
    refine List.Nodup.map_on (fun p hp q hq he => ?_) hnodup.of_map
    obtain ⟨hne, hnames⟩ := hplaces p hp
    obtain ⟨hne', hnames'⟩ := hplaces q hq
    have he' : normalizePath ("/".intercalate p.1) = normalizePath ("/".intercalate q.1) := he
    rw [normalizePath_joined hnames, normalizePath_joined hnames'] at he'
    exact List.inj_on_of_nodup_map hnodup hp hq (joined_inj hnames hne hnames' hne' he')
  · obtain ⟨p, hp, rfl⟩ := List.mem_map.1 hf
    obtain ⟨hne, hnames⟩ := hplaces p hp
    have hlast := lastPiece?_names hnames hne
    have hsplit := splitOn_joined (fun name hn => (hnames name hn).slash) hne
    refine ⟨?_, ?_, Language.ofPath?_congr ?_⟩ <;> simp only [normalizePath_joined hnames]
    · rwa [hsplit]
    · have hall : ∀ name ∈ above ++ p.1, '/' ∉ name.toList := fun name hn =>
        (List.mem_append.1 hn).elim (fun hn => (habove name hn).slash) fun hn => (hnames name hn).slash
      rw [toList_pathOf, lastPiece?_cons_slash, splitOn_joined hall (by simp [hne]), hsplit, List.map_append,
        Path.lastPiece?_append]
      cases hl : Path.lastPiece? (p.1.map String.toList) with
      | none => exact absurd hl hlast
      | some p => rfl

end Files

end CodeIndex
