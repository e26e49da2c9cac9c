import CodeIndex.Store.Memory
import Mathlib.Data.List.Nodup
import Mathlib.Data.Prod.Lex
import Mathlib.Data.String.Basic

/-!
Sorted answers. Where no two entries of a store have the same path, and no two records the same place, the order in
which they were put does not show. What is sorted by falling score keeps its order where scores are equal.
-/

namespace CodeIndex

section Keys

variable {α κ : Type} [LinearOrder κ] {le : α → α → Bool} {key : α → κ} {a b : α}

/-- Elements are compared by their keys. -/
def ComparesBy (le : α → α → Bool) (key : α → κ) : Prop := ∀ a b, le a b = true ↔ key a ≤ key b

theorem ComparesBy.trans (h : ComparesBy le key) (a b c : α) (hab : le a b = true) (hbc : le b c = true) :
    le a c = true := (h a c).2 (((h a b).1 hab).trans ((h b c).1 hbc))

theorem ComparesBy.total (h : ComparesBy le key) (a b : α) : (le a b || le b a) = true := by
  rw [Bool.or_eq_true, h, h]
  exact le_total ..

theorem ComparesBy.key_eq (h : ComparesBy le key) (hab : le a b = true) (hba : le b a = true) : key a = key b :=
  ((h a b).1 hab).antisymm ((h b a).1 hba)

end Keys

/-- If elements in the same place are equal, a sorted list depends on its elements alone. -/
theorem mergeSort_congr {α : Type} {le : α → α → Bool} {l l' : List α}
    (htrans : ∀ a b c, le a b = true → le b c = true → le a c = true) (htotal : ∀ a b, (le a b || le b a) = true)
    (h : l.Perm l') (hanti : ∀ a ∈ l, ∀ b ∈ l, le a b = true → le b a = true → a = b) :
    l.mergeSort le = l'.mergeSort le := by
  have hsorted := List.mergeSort_perm l le
  have hsorted' := List.mergeSort_perm l' le
  refine List.Perm.eq_of_pairwise (fun a b ha hb => hanti a ?_ b ?_) (List.pairwise_mergeSort htrans htotal l)
    (List.pairwise_mergeSort htrans htotal l') (hsorted.trans (h.trans hsorted'.symm))
  · exact hsorted.mem_iff.1 ha
  · exact h.mem_iff.2 (hsorted'.mem_iff.1 hb)

section Stable

variable {α : Type} {le : α → α → Bool}

/-- A first element is sorted in before all that it does not come after. -/
theorem mergeSort_cons_eq (htrans : ∀ a b c, le a b = true → le b c = true → le a c = true)
    (htotal : ∀ a b, (le a b || le b a) = true) (a : α) (l : List α) :
    (a :: l).mergeSort le = (l.mergeSort le).filter (fun b => !le a b) ++ a :: (l.mergeSort le).filter (le a) := by
  obtain ⟨front, back, hcons, hsort, hfront⟩ := List.mergeSort_cons htrans htotal a l
  have hsorted := List.pairwise_mergeSort htrans htotal (a :: l)
  rw [hcons, List.pairwise_append, List.pairwise_cons] at hsorted
  have hback : ∀ b ∈ back, le a b = true := hsorted.2.1.1
  have hfront' : front.filter (le a) = [] := List.filter_eq_nil_iff.2 fun b hb => by simpa using hfront b hb
  have hback' : back.filter (fun b => !le a b) = [] := List.filter_eq_nil_iff.2 fun b hb => by simp [hback b hb]
  rw [hcons, hsort, List.filter_append, List.filter_append, List.filter_eq_self.2 hfront, List.filter_eq_self.2 hback,
    hfront', hback', List.append_nil, List.nil_append]

/-- Sorting and choosing among the elements can be done in either order. -/
theorem filter_mergeSort_comm (htrans : ∀ a b c, le a b = true → le b c = true → le a c = true)
    (htotal : ∀ a b, (le a b || le b a) = true) (p : α → Bool) (l : List α) :
    (l.mergeSort le).filter p = (l.filter p).mergeSort le := by
  induction l with
  | nil => simp
  | cons a l ih =>
    by_cases ha : p a = true
    · have hswap : ∀ q : α → Bool, ((l.mergeSort le).filter q).filter p = ((l.filter p).mergeSort le).filter q := by
        intro q
        rw [← ih, List.filter_filter, List.filter_filter]
        exact List.filter_congr fun b _ => Bool.and_comm ..
      rw [mergeSort_cons_eq htrans htotal, List.filter_append, List.filter_cons_of_pos ha, hswap, hswap,
        List.filter_cons_of_pos ha, mergeSort_cons_eq htrans htotal]
    · obtain ⟨front, back, hcons, hsort, -⟩ := List.mergeSort_cons htrans htotal a l
      rw [hcons, List.filter_append, List.filter_cons_of_neg ha, List.filter_cons_of_neg ha, ← ih, hsort,
        List.filter_append]

/-- Sorting leaves some of the elements as they are if these are in order already. -/
theorem filter_mergeSort_of_pairwise {l : List α} {p : α → Bool}
    (htrans : ∀ a b c, le a b = true → le b c = true → le a c = true) (htotal : ∀ a b, (le a b || le b a) = true)
    (h : (l.filter p).Pairwise fun a b => le a b = true) : (l.mergeSort le).filter p = l.filter p := by
  rw [filter_mergeSort_comm htrans htotal, List.mergeSort_of_pairwise h]

end Stable

section Falling

open Number

variable {α : Type} (score : α → Single)

/-- The second score is not the higher one. -/
def falling (a b : α) : Bool := (score b).totalLe (score a)

theorem falling_trans (a b c : α) (hab : falling score a b = true) (hbc : falling score b c = true) :
    falling score a c = true := Single.totalLe_trans hbc hab

theorem falling_total (a b : α) : (falling score a b || falling score b a) = true :=
  Single.totalLe_total (score b) (score a)

/-- Elements of one score stay in the order that they had. -/
theorem filter_mergeSort_falling (l : List α) (x : Single) :
    (l.mergeSort (falling score)).filter (score · = x) = l.filter (score · = x) := by
  refine filter_mergeSort_of_pairwise (falling_trans score) (falling_total score)
    (List.pairwise_of_forall_mem_list fun a ha b hb => ?_)
  rw [List.mem_filter, decide_eq_true_iff] at ha hb
  simp [falling, Single.totalLe, ha.2, hb.2]

/-- Of two elements the first has the higher score, or the same and was before the second. -/
theorem pairwise_mergeSort_falling {R : α → α → Prop} {l : List α} (h : l.Pairwise R) :
    (l.mergeSort (falling score)).Pairwise fun a b =>
      (score b).rank < (score a).rank ∨ score a = score b ∧ R a b := by
  refine List.pairwise_iff_forall_sublist.2 fun {a b} hab => ?_
  have hfalls := List.pairwise_iff_forall_sublist.1
    (List.pairwise_mergeSort (falling_trans score) (falling_total score) l) hab
  by_cases hscore : score a = score b
  · have htied : ((l.mergeSort (falling score)).filter (score · = score b)).Pairwise R := by
      rw [filter_mergeSort_falling]
      exact h.filter _
    refine .inr ⟨hscore, ?_⟩
    exact List.pairwise_iff_forall_sublist.1 (List.pairwise_filter.1 htied) hab (by simpa using hscore) (by simp)
  · have hle : (score b).rank ≤ (score a).rank := of_decide_eq_true hfalls
    refine .inl (Int.lt_iff_le_and_ne.2 ⟨hle, fun he => hscore ?_⟩)
    exact Single.totalLe_antisymm (decide_eq_true (Int.le_of_eq he.symm)) hfalls

end Falling

theorem byPath_congr {fs fs' : List FileEntry} (h : fs.Perm fs')
    (hpath : ∀ f ∈ fs, ∀ g ∈ fs, f.path = g.path → f = g) : byPath fs = byPath fs' := by
  have hpaths : ComparesBy (fun f g : FileEntry => decide (f.path ≤ g.path)) FileEntry.path := fun _ _ =>
    decide_eq_true_iff
  exact mergeSort_congr hpaths.trans hpaths.total h fun f hf g hg hfg hgf => hpath f hf g hg (hpaths.key_eq hfg hgf)

/-- The order of records by position. -/
def Record.precedes (r q : Record) : Bool :=
  decide (r.path < q.path) || (r.path == q.path && decide (r.index ≤ q.index))

theorem byPosition_eq (rs : List Record) : byPosition rs = rs.mergeSort Record.precedes := rfl

theorem precedes_iff {r q : Record} : r.precedes q = true ↔ r.path < q.path ∨ r.path = q.path ∧ r.index ≤ q.index := by
  rw [Record.precedes, Bool.or_eq_true, Bool.and_eq_true, decide_eq_true_iff, decide_eq_true_iff, beq_iff_eq]

/-- The place of a record among those of its project. -/
def Record.place (r : Record) : String ×ₗ ℕ := toLex (r.path, r.index)

theorem precedes_place : ComparesBy Record.precedes Record.place := fun _ _ => by
  rw [precedes_iff, Record.place, Record.place, Prod.Lex.toLex_le_toLex]

/-- Only records in the same place come each before the other. -/
theorem place_eq_of_precedes {r q : Record} (hrq : r.precedes q = true) (hqr : q.precedes r = true) :
    r.path = q.path ∧ r.index = q.index := Prod.mk.inj (toLex_inj.1 (precedes_place.key_eq hrq hqr))

theorem byPosition_congr {rs rs' : List Record} (h : rs.Perm rs')
    (hplace : ∀ r ∈ rs, ∀ q ∈ rs, r.path = q.path → r.index = q.index → r = q) : byPosition rs = byPosition rs' := by
  rw [byPosition_eq, byPosition_eq]
  refine mergeSort_congr precedes_place.trans precedes_place.total h fun r hr q hq hrq hqr => ?_
  obtain ⟨hpath, hindex⟩ := place_eq_of_precedes hrq hqr
  exact hplace r hr q hq hpath hindex

theorem filter_byPosition {rs : List Record} {p : Record → Bool}
    (h : (rs.filter p).Pairwise fun r q => r.precedes q = true) : (byPosition rs).filter p = rs.filter p :=
  filter_mergeSort_of_pairwise precedes_place.trans precedes_place.total h

/-- Records that are numbered one after the other in a file come in that order. -/
theorem filter_byPosition_of_perm {rows rs : List Record} {p : Record → Bool} (h : (rows.filter p).Perm rs)
    (hrs : rs.Pairwise fun r q => r.path = q.path ∧ r.index < q.index) : (byPosition rows).filter p = rs := by
  have hperm : ((byPosition rows).filter p).Perm rs := ((List.mergeSort_perm ..).filter p).trans h
  have hindex : (rs.map (·.index)).Nodup := List.pairwise_map.2 (hrs.imp fun hrq => Nat.ne_of_lt hrq.2)
  refine hperm.eq_of_pairwise (fun r q hr hq hrq hqr => ?_)
    ((List.pairwise_mergeSort precedes_place.trans precedes_place.total rows).filter p)
    (hrs.imp fun hrq => precedes_iff.2 (.inr ⟨hrq.1, Nat.le_of_lt hrq.2⟩))
  exact List.inj_on_of_nodup_map hindex (hperm.mem_iff.1 hr) hq (place_eq_of_precedes hrq hqr).2

theorem Scored.before_iff {a b : Scored} :
    a.before b = true ↔ b.score.rank < a.score.rank ∨ a.score.rank = b.score.rank ∧ a.record.id ≤ b.record.id := by
  simp [Scored.before]

/-- What results are ordered by, the higher scores first. -/
def Scored.standing (a : Scored) : ℤᵒᵈ ×ₗ String := toLex (.toDual a.score.rank, a.record.id)

theorem Scored.before_standing : ComparesBy Scored.before Scored.standing := fun a b => by
  rw [before_iff, standing, standing, Prod.Lex.toLex_le_toLex, OrderDual.toDual_lt_toDual, OrderDual.toDual_inj]

/-- What a search finds depends on the records alone if no two have the same identifier. -/
theorem nearest_congr {rs rs' : List Record} (h : rs.Perm rs') (hid : ∀ r ∈ rs, ∀ q ∈ rs, r.id = q.id → r = q)
    (query : Embedding.Vec) (k : Nat) (minScore : Number.Single) :
    nearest rs query k minScore = nearest rs' query k minScore := by
  unfold nearest
  refine congrArg (List.take k) (mergeSort_congr Scored.before_standing.trans Scored.before_standing.total
    ((h.map _).filter _) fun a ha b hb hab hba => ?_)
  -- equal identifiers are those of one record, and the record gives the score
  obtain ⟨r, hr, rfl⟩ := List.mem_map.1 (List.mem_filter.1 ha).1
  obtain ⟨q, hq, rfl⟩ := List.mem_map.1 (List.mem_filter.1 hb).1
  have hrq : r.id = q.id := (Prod.mk.inj (toLex_inj.1 (Scored.before_standing.key_eq hab hba))).2
  rw [hid r hr q hq hrq]

end CodeIndex
