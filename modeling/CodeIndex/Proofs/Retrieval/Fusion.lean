import CodeIndex.Proofs.Store.Sorted
import CodeIndex.Retrieval
import Mathlib.Data.List.Induction

/-!
Two rankings merged. Every place in one of them is in the answer once, with what all its occurrences add up to; the
answer falls by score, and where scores are equal it keeps the order in which the places were first seen.
-/

namespace CodeIndex

open Number

namespace RetrievedChunk

/-- The file of a chunk and its lines. -/
def place (c : RetrievedChunk) : String × Nat × Nat := (c.path, c.startLine, c.endLine)

theorem samePlace_iff {a b : RetrievedChunk} : a.samePlace b = true ↔ a.place = b.place := by
  simp [samePlace, place, and_assoc]

@[simp] theorem place_absorb (a b : RetrievedChunk) (worth : Single) : (a.absorb worth b).place = a.place := rfl

end RetrievedChunk

open RetrievedChunk

/-- A ranked result, and what its rank is worth. -/
abbrev Occurrence := RetrievedChunk × Single

/-- The results of a ranking, the ranks counted from zero. -/
def ranked (config : RetrievalConfig) (weight : Single) (ranking : List RetrievedChunk) : List Occurrence :=
  ranking.zipIdx.map fun (c, rank) => (c, weight / (config.rrfK + .ofNat rank + .one))

/-- All results in the order in which they are seen: those of the ranking by meaning come first. -/
def occurrences (config : RetrievalConfig) (semantic lexical : List RetrievedChunk) : List Occurrence :=
  ranked config config.semanticWeight semantic ++ ranked config config.lexicalWeight lexical

/-- The results at a place. -/
def resultsAt (place : String × Nat × Nat) (os : List Occurrence) : List Occurrence := os.filter (·.1.place = place)

/-- The number of results that are seen before a place. -/
def firstSeen (os : List Occurrence) (place : String × Nat × Nat) : Nat := os.findIdx (·.1.place = place)

/-- A chunk that some results at its place are merged into: the content of the first, the first name that one of them
has, the flags of all, and the sum of their worths from left to right. -/
structure Merges (own : List Occurrence) (c : RetrievedChunk) : Prop where
  first : ∃ o rest, own = o :: rest ∧ c.content = o.1.content ∧ c.score = rest.foldl (fun sum x => sum + x.2) o.2
  symbolName : c.symbolName = own.findSome? (·.1.symbolName)
  semantic : c.semantic = own.any (·.1.semantic)
  lexical : c.lexical = own.any (·.1.lexical)

section

variable {os own : List Occurrence} {merged : List RetrievedChunk} {c m : RetrievedChunk} {worth : Single}
  {place : String × Nat × Nat}

theorem map_fst_ranked (config : RetrievalConfig) (weight : Single) (ranking : List RetrievedChunk) :
    (ranked config weight ranking).map (·.1) = ranking := by
  rw [ranked, List.map_map]
  exact List.zipIdx_map_fst 0 ranking

theorem map_fst_occurrences (config : RetrievalConfig) (semantic lexical : List RetrievedChunk) :
    (occurrences config semantic lexical).map (·.1) = semantic ++ lexical := by
  rw [occurrences, List.map_append, map_fst_ranked, map_fst_ranked]

/-- One result alone. -/
theorem merges_singleton (c : RetrievedChunk) (worth : Single) : Merges [(c, worth)] { c with score := worth } where
  first := ⟨(c, worth), [], rfl, rfl, rfl⟩
  symbolName := by cases h : c.symbolName <;> simp [h]
  semantic := by simp
  lexical := by simp

/-- One more result. -/
theorem Merges.absorb (h : Merges own m) (c : RetrievedChunk) (worth : Single) :
    Merges (own ++ [(c, worth)]) (m.absorb worth c) where
  first := by
    obtain ⟨o, rest, rfl, hcontent, hscore⟩ := h.first
    refine ⟨o, rest ++ [(c, worth)], rfl, hcontent, ?_⟩
    rw [List.foldl_append, ← hscore]
    rfl
  symbolName := by
    rw [List.findSome?_append, ← h.symbolName]
    cases hc : c.symbolName <;> simp [RetrievedChunk.absorb, hc]
  semantic := by
    rw [List.any_append, ← h.semantic]
    simp [RetrievedChunk.absorb]
  lexical := by
    rw [List.any_append, ← h.lexical]
    simp [RetrievedChunk.absorb]

theorem resultsAt_concat (os : List Occurrence) (c : RetrievedChunk) (worth : Single) :
    resultsAt place (os ++ [(c, worth)]) =
      if c.place = place then resultsAt place os ++ [(c, worth)] else resultsAt place os := by
  rw [resultsAt, List.filter_append]
  split
  · rename_i h
    rw [List.filter_cons_of_pos (by simpa using h)]
    rfl
  · rename_i h
    rw [List.filter_cons_of_neg (by simpa using h)]
    exact List.append_nil _

theorem firstSeen_lt : firstSeen os place < os.length ↔ place ∈ os.map (·.1.place) := by
  rw [firstSeen, List.findIdx_lt_length, List.mem_map]
  simp

/-- A place that was seen stays where it was seen first. -/
theorem firstSeen_append (h : place ∈ os.map (·.1.place)) (later : List Occurrence) :
    firstSeen (os ++ later) place = firstSeen os place := by
  have hlt := firstSeen_lt.2 h
  unfold firstSeen at *
  rw [List.findIdx_append, if_pos hlt]

/-- A new place is seen last. -/
theorem firstSeen_new (h : c.place ∉ os.map (·.1.place)) (worth : Single) :
    firstSeen (os ++ [(c, worth)]) c.place = os.length := by
  have hge := mt firstSeen_lt.1 h
  unfold firstSeen at *
  rw [List.findIdx_append, if_neg hge, List.findIdx_cons]
  simp

/-- What the results so far are merged into: one chunk for each place, in the order in which they were seen. -/
structure Merging (os : List Occurrence) (merged : List RetrievedChunk) : Prop where
  places : ∀ place, place ∈ merged.map RetrievedChunk.place ↔ place ∈ os.map (·.1.place)
  merges : ∀ m ∈ merged, Merges (resultsAt m.place os) m
  seen : merged.Pairwise fun a b => firstSeen os a.place < firstSeen os b.place

/-- A result at a place that was seen is taken in by the chunk at that place. -/
theorem Merging.known (h : Merging os merged) (hc : c.place ∈ merged.map RetrievedChunk.place) (worth : Single) :
    Merging (os ++ [(c, worth)]) (merged.map fun m => if m.samePlace c then m.absorb worth c else m) := by
  have hplace : ∀ m : RetrievedChunk, (if m.samePlace c then m.absorb worth c else m).place = m.place := by
    intro m
    split <;> rfl
  have hplaces : (merged.map fun m => if m.samePlace c then m.absorb worth c else m).map RetrievedChunk.place =
      merged.map RetrievedChunk.place := by
    rw [List.map_map]
    exact List.map_congr_left fun m _ => hplace m
  refine ⟨fun place => ?_, fun m' hm' => ?_, ?_⟩
  · rw [hplaces, h.places, List.map_append, List.mem_append, List.map_singleton, List.mem_singleton]
    exact ⟨.inl, fun hp => hp.elim id fun he => he ▸ (h.places _).1 hc⟩
  · obtain ⟨m, hm, rfl⟩ := List.mem_map.1 hm'
    rw [hplace, resultsAt_concat]
    by_cases hsame : m.place = c.place
    · rw [if_pos hsame.symm, if_pos (samePlace_iff.2 hsame)]
      exact (h.merges m hm).absorb c worth
    · rw [if_neg (Ne.symm hsame), if_neg fun hs => hsame (samePlace_iff.1 hs)]
      exact h.merges m hm
  · rw [List.pairwise_map]
    refine h.seen.imp_of_mem fun {a b} ha hb hab => ?_
    rw [hplace, hplace, firstSeen_append ((h.places _).1 (List.mem_map_of_mem ha)),
      firstSeen_append ((h.places _).1 (List.mem_map_of_mem hb))]
    exact hab

/-- A result at a new place comes last. -/
theorem Merging.new (h : Merging os merged) (hc : c.place ∉ merged.map RetrievedChunk.place) (worth : Single) :
    Merging (os ++ [(c, worth)]) (merged ++ [{ c with score := worth }]) := by
  have hnew : c.place ∉ os.map (·.1.place) := mt (h.places _).2 hc
  have hold : ∀ m ∈ merged, m.place ∈ os.map (·.1.place) := fun m hm => (h.places _).1 (List.mem_map_of_mem hm)
  have hnone : resultsAt c.place os = [] :=
    List.filter_eq_nil_iff.2 fun o ho hp => hnew (List.mem_map.2 ⟨o, ho, by simpa using hp⟩)
  refine ⟨fun place => ?_, List.forall_mem_append.2 ⟨fun m hm => ?_, List.forall_mem_singleton.2 ?_⟩,
    List.pairwise_append.2 ⟨h.seen.imp_of_mem fun {a b} ha hb hab => ?_, List.pairwise_singleton .., fun m hm b hb => ?_⟩⟩
  · rw [List.map_append, List.map_append, List.mem_append, List.mem_append, h.places]
    rfl
  · rw [resultsAt_concat, if_neg fun he : c.place = m.place => hnew (he ▸ hold m hm)]
    exact h.merges m hm
  · change Merges (resultsAt c.place _) _
    rw [resultsAt_concat, if_pos rfl, hnone]
    exact merges_singleton c worth
  · rw [firstSeen_append (hold a ha), firstSeen_append (hold b hb)]
    exact hab
  · obtain rfl := List.mem_singleton.1 hb
    change firstSeen _ m.place < firstSeen _ c.place
    rw [firstSeen_append (hold m hm), firstSeen_new hnew]
    exact firstSeen_lt.2 (hold m hm)

/-- One result is merged. -/
theorem Merging.step (h : Merging os merged) (c : RetrievedChunk) (worth : Single) :
    Merging (os ++ [(c, worth)]) (mergeRanked merged c worth) := by
  have hany : merged.any (·.samePlace c) = true ↔ c.place ∈ merged.map RetrievedChunk.place := by
    rw [List.any_eq_true, List.mem_map]
    exact exists_congr fun m => and_congr_right fun _ => samePlace_iff
  unfold mergeRanked
  split
  · rename_i hc
    exact h.known (hany.1 hc) worth
  · rename_i hc
    exact h.new (mt hany.2 hc) worth

/-- All results are merged. -/
theorem merging_foldl (os : List Occurrence) :
    Merging os (os.foldl (fun merged o => mergeRanked merged o.1 o.2) []) := by
  induction os using List.reverseRecOn with
  | nil => exact ⟨fun _ => .rfl, nofun, .nil⟩
  | append_singleton os o ih =>
    rw [List.foldl_append]
    exact ih.step o.1 o.2

end

/-- Merged rankings: each place that occurs is there once, with what its results are merged into, and of two chunks the
first has the higher score, or the same and was seen first. -/
theorem fuse_exact (config : RetrievalConfig) (semantic lexical : List RetrievedChunk) :
    let os := occurrences config semantic lexical
    let fused := fuse config semantic lexical
    (fused.map place).Nodup ∧ (∀ place, place ∈ fused.map RetrievedChunk.place ↔
        place ∈ (semantic ++ lexical).map RetrievedChunk.place) ∧
      (∀ c ∈ fused, Merges (resultsAt c.place os) c) ∧
      fused.Pairwise fun a b =>
        b.score.rank < a.score.rank ∨ a.score = b.score ∧ firstSeen os a.place < firstSeen os b.place := by
  intro os fused
  have hmerging := merging_foldl os
  have hperm : fused.Perm (os.foldl (fun merged o => mergeRanked merged o.1 o.2) []) := List.mergeSort_perm ..
  refine ⟨?_, fun place => ?_, fun c hc => hmerging.merges c (hperm.mem_iff.1 hc),
    pairwise_mergeSort_falling RetrievedChunk.score hmerging.seen⟩
  · rw [(hperm.map _).nodup_iff, List.Nodup, List.pairwise_map]
    refine hmerging.seen.imp fun hlt he => ?_
    rw [he] at hlt
    exact Nat.lt_irrefl _ hlt
  · rw [(hperm.map _).mem_iff, hmerging.places, ← map_fst_occurrences config, List.map_map]
    rfl

end CodeIndex
