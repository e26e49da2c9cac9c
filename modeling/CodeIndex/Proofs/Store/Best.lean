import CodeIndex.Proofs.Store.Identifiers

/-!
What a search finds: the best of the records that can be compared with what is looked for, ranked by their scores and,
where these are equal, by their identifiers. Neither the kind of a store nor the order in which it holds its records
shows in the answer.
-/

namespace CodeIndex

open Number CodeIndex.Embedding

variable {rs : List Record} {r : Record} {query : Vec} {minScore : Single} {a b : Scored} {k : Nat}

/-- A record with its score against a query. -/
def Record.scored (query : Vec) (r : Record) : Scored := ⟨r, cosine query r.vector⟩

/-- One result is ahead of another: it has the higher score, or the same and the smaller identifier. -/
def Scored.Ahead (a b : Scored) : Prop :=
  b.score.rank < a.score.rank ∨ a.score = b.score ∧ a.record.id < b.record.id

/-- The best `k` of some records, each with its score, in their order; those that are left out come after them. -/
structure Best (rs : List Record) (query : Vec) (k : Nat) (found : List Scored) : Prop where
  count : found.length = min k rs.length
  scored : ∀ a ∈ found, a.record ∈ rs ∧ a = a.record.scored query
  ranked : found.Pairwise Scored.Ahead
  rest : ∀ r ∈ rs, r ∉ found.map (·.record) → ∀ a ∈ found, a.Ahead (r.scored query)

/-- Under different identifiers only one of two results is before the other. -/
theorem Scored.ahead_of_before (h : a.before b = true) (hid : a.record.id ≠ b.record.id) : a.Ahead b := by
  obtain hlt | ⟨heq, hle⟩ := before_iff.1 h
  · exact .inl hlt
  · have hscore : a.score = b.score :=
      Single.totalLe_antisymm (decide_eq_true (Int.le_of_eq heq)) (decide_eq_true (Int.le_of_eq heq.symm))
    have hlt : a.record.id < b.record.id := String.not_le.1 fun hge => hid (String.le_antisymm hle hge)
    exact .inr ⟨hscore, hlt⟩

/-- Scores are given before the least score is asked for; the records that reach it are the same. -/
theorem nearest_eq (rs : List Record) (query : Vec) (k : Nat) (minScore : Single) :
    nearest rs query k minScore =
      (((rs.filter fun r => minScore.le (cosine query r.vector)).map (Record.scored query)).mergeSort
        Scored.before).take k := by
  have hscored : (rs.map (Record.scored query)).filter (fun s => minScore.le s.score) =
      (rs.filter fun r => minScore.le (cosine query r.vector)).map (Record.scored query) := List.filter_map
  rw [← hscored]
  rfl

/-- The front of the ranking, which no two records share a place in. -/
theorem best_take (hn : (rs.map (·.id)).Nodup) (query : Vec) (k : Nat) :
    Best rs query k (((rs.map (Record.scored query)).mergeSort Scored.before).take k) := by
  generalize hranking : (rs.map (Record.scored query)).mergeSort Scored.before = ranking
  have hperm : ranking.Perm (rs.map (Record.scored query)) := hranking ▸ List.mergeSort_perm ..
  have hids : ranking.Pairwise fun a b => a.record.id ≠ b.record.id := by
    rw [← List.pairwise_map (f := fun a : Scored => a.record.id), ← List.Nodup, (hperm.map _).nodup_iff, List.map_map]
    exact hn
  have hahead : ranking.Pairwise Scored.Ahead := by
    have hbefore := List.pairwise_mergeSort Scored.before_standing.trans Scored.before_standing.total
      (rs.map (Record.scored query))
    rw [hranking] at hbefore
    exact (hbefore.and hids).imp fun h => Scored.ahead_of_before h.1 h.2
  refine ⟨?_, fun a ha => ?_, hahead.sublist (List.take_sublist k ranking), fun r hr hout a ha => ?_⟩
  · rw [List.length_take, hperm.length_eq, List.length_map]
  · obtain ⟨r, hr, rfl⟩ := List.mem_map.1 (hperm.mem_iff.1 (List.mem_of_mem_take ha))
    exact ⟨hr, rfl⟩
  · -- what is not in front stands behind
    have hmem := hperm.mem_iff.2 (List.mem_map_of_mem (f := Record.scored query) hr)
    rw [← List.take_append_drop k ranking] at hahead hmem
    have hback := (List.mem_append.1 hmem).resolve_left fun hfront => hout (List.mem_map.2 ⟨_, hfront, rfl⟩)
    exact (List.pairwise_append.1 hahead).2.2 a ha _ hback

namespace Store

variable {s t : Store} {project : String}

/-- The records of a project that are as long as a query and reach the least score against it. -/
def matching (s : Store) (project : String) (query : Vec) (minScore : Single) : List Record :=
  s.rows.filter fun r => r.project = project ∧ r.vector.size = query.size ∧ minScore.le (cosine query r.vector)

theorem matching_eq (s : Store) (project : String) (query : Vec) (minScore : Single) :
    s.matching project query minScore =
      ((s.rows.filter (·.project == project)).filter (·.vector.size == query.size)).filter
        fun r => minScore.le (cosine query r.vector) := by
  rw [matching, List.filter_filter, List.filter_filter]
  refine List.filter_congr fun r _ => ?_
  rw [Bool.eq_iff_iff]
  simp [and_comm]

/-- A search gives the best of the records that match. -/
theorem search_eq_take (hn : (s.rows.map (·.id)).Nodup) (hsize : ∀ r ∈ s.rows, r.vector.size = r.dimensions)
    (hq : s.settings.Holds query.size) (project : String) (k : Nat) (minScore : Single) :
    ∃ found, s.search project query k minScore = .ok found ∧ Best (s.matching project query minScore) query k found := by
  refine ⟨_, search_eq hsize hq project k minScore, ?_⟩
  rw [nearest_eq, ← matching_eq]
  exact best_take (hn.sublist (List.filter_sublist.map _)) query k

theorem Reached.after (h : s.Reached) (requests : List Request) : (s.after requests).Reached := by
  induction requests generalizing s with
  | nil => exact h
  | cons q requests ih => exact ih (h.serve q)

/-- Whatever a store of either kind was asked before: a search gives the best of the project's records that are as long
as the query and reach the least score, as many as there are up to `k`. Any store with the same records of the project
gives the same, whatever its kind and the order of its records. -/
theorem search_best (h : s.Reached) (hsize : ∀ r ∈ s.rows, r.vector.size = r.dimensions)
    (hq : s.settings.Holds query.size) (project : String) (k : Nat) (minScore : Single) :
    (s.matching project query minScore).Nodup ∧
      ∃ found, s.search project query k minScore = .ok found ∧ Best (s.matching project query minScore) query k found ∧
        ∀ t : Store, (t.rows.map (·.id)).Nodup → (∀ r ∈ t.rows, r.vector.size = r.dimensions) →
          t.settings.Holds query.size → (∀ r : Record, r.project = project → (r ∈ t.rows ↔ r ∈ s.rows)) →
            t.search project query k minScore = .ok found := by
  have hn := h.distinct.recordIds
  obtain ⟨found, hfound, hbest⟩ := search_eq_take hn hsize hq project k minScore
  refine ⟨hn.of_map.filter _, found, hfound, hbest, fun t hn' hsize' hq' hsame => ?_⟩
  rw [← hfound]
  exact search_congr hn hn' hsize hsize' hq hq' hsame k minScore

/-- A record of some vector. -/
def vectorAt (id : String) (vector : Vec) : Record := { noteRecord vector.size with id, vector }

/-- Three records, two of them with equal vectors, and one that is too short for the query. -/
def tiedVectors : List Request :=
  [.put (vectorAt "c" #[.one, .one]), .put (vectorAt "b" #[.one, .zero]), .put (vectorAt "s" #[.one]),
    .put (vectorAt "a" #[.one, .zero])]

/-- Of equal vectors the one with the smaller identifier comes first, though it was stored last. -/
theorem search_best_tied :
    let s := (memory {}).after tiedVectors
    let t := (table {}).after tiedVectors.reverse
    let query : Vec := #[.one, .zero]
    s.Reached ∧ (∀ r ∈ s.rows, r.vector.size = r.dimensions) ∧
      ∃ found, s.search "p" query 2 .zero = .ok found ∧ t.search "p" query 2 .zero = .ok found ∧
        Best (s.matching "p" query .zero) query 2 found ∧ found.map (·.record.id) = ["a", "b"] := by
  intro s t query
  have hreached : s.Reached := (Reached.memory none).after tiedVectors
  have hrows : s.rows = [vectorAt "c" #[.one, .one], vectorAt "b" #[.one, .zero], vectorAt "s" #[.one],
    vectorAt "a" #[.one, .zero]] := by decide +kernel
  have hrows' : t.rows = [vectorAt "a" #[.one, .zero], vectorAt "s" #[.one], vectorAt "b" #[.one, .zero],
    vectorAt "c" #[.one, .one]] := by decide +kernel
  have hsize : ∀ r ∈ s.rows, r.vector.size = r.dimensions := by rw [hrows]; decide
  have hsize' : ∀ r ∈ t.rows, r.vector.size = r.dimensions := by rw [hrows']; decide
  have hquery : s.settings.Holds query.size := nofun
  obtain ⟨-, found, hfound, hbest, hall⟩ := search_best hreached hsize hquery "p" 2 .zero
  have hsame := hall t (by rw [hrows']; decide) hsize' (fun _ => by decide) fun r _ => by
    rw [hrows, hrows']
    simp [or_assoc, or_comm, or_left_comm]
  refine ⟨hreached, hsize, found, hfound, hsame, hbest, ?_⟩
  -- the table holds its records in the order of the ranking
  rw [search_eq hsize' (fun _ => by decide), nearest_eq, List.mergeSort_of_pairwise (by rw [hrows']; decide +kernel),
    hrows'] at hsame
  rw [← Except.ok.inj hsame]
  decide +kernel

end Store

end CodeIndex
