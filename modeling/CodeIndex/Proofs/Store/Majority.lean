import CodeIndex.Proofs.Store.Sorted
import Mathlib.Data.List.Induction
import Mathlib.Data.List.Perm.Basic

/-!
The signature of most records, picked from counts that come in any order. The pick is always one that leads: none counts
more, and none that counts as much has an earlier provider. Providers break no tie between two signatures of one
provider, so where two such lead, the order decides.
-/

namespace CodeIndex

open CodeIndex.Embedding

variable {counts counts' : List (Signature × Nat)} {a b c : Signature × Nat} {signature : Signature}

theorem outranks_iff : outranks b a = true ↔ a.2 < b.2 ∨ a.2 = b.2 ∧ b.1.provider ≤ a.1.provider := by
  simp [outranks]

/-- What counts are ordered by: of equal ones that of the earlier provider is the higher. -/
def weight (a : Signature × Nat) : ℕ ×ₗ Stringᵒᵈ := toLex (a.2, .toDual a.1.provider)

theorem outranks_weight : ComparesBy (fun a b => outranks b a) weight := fun a b => by
  rw [outranks_iff, weight, weight, Prod.Lex.toLex_le_toLex, OrderDual.toDual_le_toDual]

theorem outranks_total (h : ¬outranks b a = true) : outranks a b = true :=
  (Bool.or_eq_true _ _ ▸ outranks_weight.total a b).resolve_left h

theorem outranks_trans (hcb : outranks c b = true) (hba : outranks b a = true) : outranks c a = true :=
  outranks_weight.trans a b c hba hcb

/-- One of the counts leads: it is a largest one, and of those an earliest by its provider. -/
structure Leads (counts : List (Signature × Nat)) (a : Signature × Nat) : Prop where
  mem : a ∈ counts
  largest : ∀ c ∈ counts, c.2 ≤ a.2
  earliest : ∀ c ∈ counts, c.2 = a.2 → a.1.provider ≤ c.1.provider

theorem leads_iff : Leads counts a ↔ a ∈ counts ∧ ∀ c ∈ counts, outranks a c = true := by
  constructor
  · intro h
    refine ⟨h.mem, fun c hc => outranks_iff.2 ?_⟩
    exact (Nat.lt_or_eq_of_le (h.largest c hc)).imp_right fun he => ⟨he, h.earliest c hc he⟩
  · rintro ⟨hmem, hall⟩
    refine ⟨hmem, fun c hc => ?_, fun c hc he => ?_⟩
    · obtain hlt | ⟨he, -⟩ := outranks_iff.1 (hall c hc)
      · exact Nat.le_of_lt hlt
      · exact Nat.le_of_eq he
    · obtain hlt | ⟨-, hp⟩ := outranks_iff.1 (hall c hc)
      · exact absurd he (Nat.ne_of_lt hlt)
      · exact hp

theorem Leads.congr (h : Leads counts a) (hc : ∀ c, c ∈ counts ↔ c ∈ counts') : Leads counts' a :=
  ⟨(hc a).1 h.mem, fun c hm => h.largest c ((hc c).2 hm), fun c hm => h.earliest c ((hc c).2 hm)⟩

/-- Those that lead have the same count and the same provider. -/
theorem Leads.tied (ha : Leads counts a) (hb : Leads counts b) : a.2 = b.2 ∧ a.1.provider = b.1.provider := by
  have hcount : a.2 = b.2 := Nat.le_antisymm (hb.largest a ha.mem) (ha.largest b hb.mem)
  exact ⟨hcount, String.le_antisymm (ha.earliest b hb.mem hcount.symm) (hb.earliest a ha.mem hcount)⟩

/-- The one of two counts that takes precedence, the later where neither does. -/
def preferred (best : Option (Signature × Nat)) (c : Signature × Nat) : Option (Signature × Nat) :=
  match best with
  | none => some c
  | some b => if outranks c b then some c else some b

theorem majoritySignature_eq (counts : List (Signature × Nat)) :
    majoritySignature counts = (counts.foldl preferred none).map (·.1) := rfl

theorem foldl_preferred_concat (counts : List (Signature × Nat)) (c : Signature × Nat) :
    (counts ++ [c]).foldl preferred none = preferred (counts.foldl preferred none) c := by
  rw [List.foldl_append]
  rfl

theorem preferred_ne_none (best : Option (Signature × Nat)) (c : Signature × Nat) : preferred best c ≠ none := by
  cases best with
  | none => simp [preferred]
  | some b => simp only [preferred]; split <;> simp

theorem eq_nil_of_foldl_preferred (h : counts.foldl preferred none = none) : counts = [] := by
  induction counts using List.reverseRecOn with
  | nil => rfl
  | append_singleton counts c _ =>
    rw [foldl_preferred_concat] at h
    exact absurd h (preferred_ne_none _ c)

/-- What a run through the counts ends with leads them. -/
theorem foldl_preferred {best : Signature × Nat} (h : counts.foldl preferred none = some best) : Leads counts best := by
  rw [leads_iff]
  -- from the right, since a step compares a count with the best of all before it
  induction counts using List.reverseRecOn generalizing best with
  | nil => cases h
  | append_singleton counts c ih =>
    have hself : outranks c c = true := outranks_iff.2 (.inr ⟨rfl, String.le_refl _⟩)
    rw [foldl_preferred_concat] at h
    cases hb : counts.foldl preferred none with
    | none =>
      rw [hb] at h
      cases h
      simp [eq_nil_of_foldl_preferred hb, hself]
    | some b =>
      obtain ⟨hmem, hall⟩ := ih hb
      rw [hb] at h
      simp only [preferred] at h
      split at h
      · rename_i hcb
        cases h
        refine ⟨by simp, fun d hd => ?_⟩
        obtain hd | hd := List.mem_append.1 hd
        · exact outranks_trans hcb (hall d hd)
        · simpa [List.mem_singleton.1 hd] using hself
      · rename_i hcb
        cases h
        refine ⟨by simp [hmem], fun d hd => ?_⟩
        obtain hd | hd := List.mem_append.1 hd
        · exact hall d hd
        · simpa [List.mem_singleton.1 hd] using outranks_total hcb

/-- One that leads is the pick if it comes last. -/
theorem foldl_preferred_last (h : ∀ b ∈ counts, outranks c b = true) :
    (counts ++ [c]).foldl preferred none = some c := by
  rw [foldl_preferred_concat]
  cases hb : counts.foldl preferred none with
  | none => rfl
  | some b => exact if_pos (h b (foldl_preferred hb).mem)

theorem majoritySignature_eq_none (h : majoritySignature counts = none) : counts = [] := by
  rw [majoritySignature_eq, Option.map_eq_none_iff] at h
  exact eq_nil_of_foldl_preferred h

theorem majoritySignature_spec (h : majoritySignature counts = some signature) : ∃ n, Leads counts (signature, n) := by
  rw [majoritySignature_eq, Option.map_eq_some_iff] at h
  obtain ⟨⟨signature, n⟩, hbest, rfl⟩ := h
  exact ⟨n, foldl_preferred hbest⟩

/-- Any that leads is the pick in some order. -/
theorem Leads.picked (h : Leads counts a) : ∃ counts', counts'.Perm counts ∧ majoritySignature counts' = some a.1 := by
  -- of those that lead it is the pick where it comes last
  refine ⟨counts.erase a ++ [a], ?_, ?_⟩
  · exact (List.perm_append_singleton a _).trans (List.perm_cons_erase h.mem).symm
  · rw [majoritySignature_eq, foldl_preferred_last fun b hb => (leads_iff.1 h).2 b (List.mem_of_mem_erase hb)]
    rfl

/-- **Majority**: of any counts but none one is picked, and it leads them, so that its count is the largest. The order
in which the counts come does not show in the pick just when no two different signatures lead: those would have the
same count and the same provider. -/
theorem majority_stable_iff (counts : List (Signature × Nat)) :
    (counts ≠ [] → ∃ signature, majoritySignature counts = some signature) ∧
      (∀ signature, majoritySignature counts = some signature → ∃ n, Leads counts (signature, n)) ∧
      ((∀ counts', counts'.Perm counts → majoritySignature counts' = majoritySignature counts) ↔
        ∀ a b, Leads counts a → Leads counts b → a.1 = b.1) := by
  refine ⟨fun hne => Option.ne_none_iff_exists'.1 (mt majoritySignature_eq_none hne), fun _ => majoritySignature_spec,
    fun hstable a b ha hb => ?_, fun hunique counts' hp => ?_⟩
  · obtain ⟨xs, hxs, hpick⟩ := ha.picked
    obtain ⟨ys, hys, hpick'⟩ := hb.picked
    rw [hstable xs hxs] at hpick
    rw [hstable ys hys, hpick] at hpick'
    exact Option.some.inj hpick'
  · cases hpick' : majoritySignature counts' with
    | none =>
      rw [majoritySignature_eq_none hpick'] at hp
      rw [hp.symm.eq_nil]
      rfl
    | some signature' =>
      cases hpick : majoritySignature counts with
      | none =>
        rw [majoritySignature_eq_none hpick] at hp
        rw [hp.eq_nil] at hpick'
        cases hpick'
      | some signature =>
        obtain ⟨n', hleads'⟩ := majoritySignature_spec hpick'
        obtain ⟨n, hleads⟩ := majoritySignature_spec hpick
        exact congrArg some (hunique _ _ (hleads'.congr fun _ => hp.mem_iff) hleads)

/-- Two signatures of one provider with as many records each, of which the one that comes last is picked. -/
theorem majority_moves :
    let short : Signature × Nat := (⟨"local:m", 2, float32⟩, 1)
    let long : Signature × Nat := (⟨"local:m", 3, float32⟩, 1)
    ([short, long].map (·.1)).Nodup ∧ [long, short].Perm [short, long] ∧
      majoritySignature [short, long] = some long.1 ∧ majoritySignature [long, short] = some short.1 ∧
      majoritySignature [long, short] ≠ majoritySignature [short, long] := by
  refine ⟨by decide, .swap _ _ [], by decide, by decide, by decide⟩

end CodeIndex
