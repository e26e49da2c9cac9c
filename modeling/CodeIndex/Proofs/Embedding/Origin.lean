import CodeIndex.Proofs.Embedding.Outcome

/-!
Where answers come from. The providers of a run are those of its chain after some calls, so an answer is what one of them
gave for the texts of its batch. Batches are of one size but for the last, so the place of a text among all texts of its
file tells its batch and its place there, and it tells the same of its vector.
-/

namespace CodeIndex.Embedding

/-- Lengths of groups that are full but for the last. -/
structure Filled (size : Nat) (lengths : List Nat) : Prop where
  full : lengths.Pairwise fun n _ => n = size
  le : ∀ n ∈ lengths, n ≤ size

theorem getElem?_flatten_of_filled {size : Nat} (hs : 1 ≤ size) {groups : List (List α)}
    (h : Filled size (groups.map List.length)) (i : Nat) :
    groups.flatten[i]? = groups[i / size]?.bind (·[i % size]?) := by
  induction groups generalizing i with
  | nil => rfl
  | cons group groups ih =>
    obtain ⟨hfull, hle⟩ := h
    obtain ⟨hfirst, hfull⟩ := List.pairwise_cons.1 hfull
    have hlen := hle group.length List.mem_cons_self
    -- a group that others follow is full
    have hnext : groups = [] ∨ group.length = size := by
      cases groups with
      | nil => exact .inl rfl
      | cons next rest => exact .inr (hfirst next.length List.mem_cons_self)
    rw [List.flatten_cons]
    by_cases hi : i < size
    · rw [Nat.div_eq_of_lt hi, Nat.mod_eq_of_lt hi]
      obtain rfl | hsize := hnext
      · simp
      · rw [List.getElem?_append_left (by omega)]
        rfl
    · have hdiv : i / size = (i - size) / size + 1 := Nat.div_eq_sub_div hs (Nat.le_of_not_lt hi)
      rw [List.getElem?_append_right (by omega), hdiv, Nat.mod_eq_sub_mod (Nat.le_of_not_lt hi),
        List.getElem?_cons_succ]
      obtain rfl | hsize := hnext
      · rfl
      · rw [hsize]
        exact ih ⟨hfull, fun n hn => hle n (List.mem_cons_of_mem _ hn)⟩ (i - size)

theorem filled_grouped {size : Nat} (hs : 1 ≤ size) (texts : List α) :
    Filled size ((grouped size texts).map List.length) := by
  have hlength : ∀ i, ((texts.drop (i * size)).take size).length = min size (texts.length - i * size) := by simp
  constructor
  · rw [grouped, List.map_map, List.pairwise_map]
    refine List.pairwise_lt_range.imp_of_mem fun {i j} _ hj hlt => ?_
    have hne := ne_nil_of_mem_grouped hs (List.mem_map_of_mem hj)
    rw [← List.length_pos_iff, hlength] at hne
    have hmul := Nat.mul_le_mul_right size (Nat.succ_le_of_lt hlt)
    rw [Nat.succ_mul] at hmul
    simp only [Function.comp_apply, hlength]
    omega
  · intro n hn
    obtain ⟨group, hgroup, rfl⟩ := List.mem_map.1 hn
    obtain ⟨i, -, rfl⟩ := List.mem_map.1 hgroup
    rw [hlength]
    exact Nat.min_le_left ..

/-- The place of a text tells its group and its place there. -/
theorem getElem?_grouped {size : Nat} (hs : 1 ≤ size) (texts : List α) (i : Nat) :
    (grouped size texts)[i / size]?.bind (·[i % size]?) = texts[i]? := by
  rw [← getElem?_flatten_of_filled hs (filled_grouped hs texts), flatten_grouped hs]

/-- A provider after some calls, each with its texts. -/
def Provider.after (p : Provider) (calls : List (List String)) : Provider :=
  calls.foldl (fun p texts => (p.call texts).1) p

theorem Provider.call_after (p : Provider) (calls : List (List String)) (texts : List String) :
    ((p.after calls).call texts).1 = p.after (calls ++ [texts]) := by
  rw [after, after, List.foldl_append]
  rfl

@[simp] theorem Provider.identity_after (p : Provider) (calls : List (List String)) :
    (p.after calls).identity = p.identity := by
  induction calls generalizing p with
  | nil => rfl
  | cons texts calls ih => exact (ih (p.call texts).1).trans (p.identity_call texts)

theorem Provider.signature_after (p : Provider) (calls : List (List String)) :
    (p.after calls).signature = p.signature := by
  have h : [p.after calls].map Provider.signature = [p].map Provider.signature :=
    map_signature (congrArg ([·]) (p.identity_after calls))
  exact (List.cons.inj h).1

/-- Each of these providers is one of the chain after some calls. -/
def Stemming (chain ps : List Provider) : Prop := ∀ q ∈ ps, ∃ p ∈ chain, ∃ calls, q = p.after calls

theorem Stemming.refl (chain : List Provider) : Stemming chain chain := fun q hq => ⟨q, hq, [], rfl⟩

theorem Stemming.set {chain ps : List Provider} {i : Nat} {q : Provider} (h : Stemming chain ps)
    (hq : ps[i]? = some q) (texts : List String) : Stemming chain (ps.set i (q.call texts).1) := by
  intro x hx
  obtain hx | rfl := List.mem_or_eq_of_mem_set hx
  · exact h x hx
  · obtain ⟨p, hp, calls, rfl⟩ := h q (List.mem_of_getElem? hq)
    exact ⟨p, hp, calls ++ [texts], p.call_after calls texts⟩

namespace Batch

variable {c : PipelineConfig} {t : Task} {f f' : Floor} {b b' : Batch}

theorem Ending.providers {i : Nat} {p : Provider} {r : Except EmbedError (List Vec)} (h : Ending f b i p r f' b') :
    f'.providers = f.providers := by
  cases h <;> rfl

/-- A step calls one provider at most, with the texts of its batch. -/
theorem Move.providers (m : Move c t f b f' b') :
    f'.providers = f.providers ∨
      ∃ i p, f.providers[i]? = some p ∧ f'.providers = f.providers.set i (p.call b.texts).1 := by
  cases m with
  | take _ _ _ _ he | wait _ _ _ he => exact .inl he.providers
  | retry i _ _ p _ _ hp => exact .inr ⟨i, p, hp, rfl⟩
  | finish i _ p _ _ _ hp hend => exact .inr ⟨i, p, hp, hend.providers.trans (f.finish_eq i p b.texts).1⟩
  | _ => exact .inl rfl

end Batch

/-- An answer to some texts that a provider of the chain gave, as it was after some calls: a vector for each text, all
of one length, under the name and in the format of that provider. -/
structure Given (chain : List Provider) (texts : List String) (e : Embedded) : Prop where
  reply : ∃ p ∈ chain, ∃ calls, ((p.after calls).call texts).2 = .ok e.vectors ∧
    e.signature.provider = p.signature.provider ∧ e.signature.format = p.signature.format
  length : e.vectors.length = texts.length
  size : ∀ v ∈ e.vectors, v.size = e.signature.dimensions

theorem checkVectors_vectors {store store' : Store} {p : Provider} {expected : Nat} {vectors : List Vec} {e : Embedded}
    (h : checkVectors store p expected vectors = .ok (store', e)) : e.vectors = vectors := by
  unfold checkVectors at h
  dsimp only at h
  repeat' split at h
  all_goals cases h
  all_goals rfl

theorem checkVectors_given {store store' : Store} {chain : List Provider} {p : Provider} {calls : List (List String)}
    {texts : List String} {vectors : List Vec} {e : Embedded} (hp : p ∈ chain)
    (hr : ((p.after calls).call texts).2 = .ok vectors)
    (hc : checkVectors store (p.after calls) texts.length vectors = .ok (store', e)) (hs : store.Sane) :
    Given chain texts e := by
  obtain rfl := checkVectors_vectors hc
  have ha : Answered [(p.after calls).signature] store.settings texts e :=
    checkVectors_answered hc hs List.mem_cons_self
  obtain ⟨s, hs, he, -⟩ := ha.source
  rw [List.mem_singleton.1 hs, p.signature_after] at he
  exact ⟨⟨p, hp, calls, hr, by rw [he], by rw [he]⟩, ha.length, ha.size⟩

/-- Whatever providers do, each answer is given by one of them. -/
def Contract.given (c : PipelineConfig) (chain : List Provider) (σ : Store.Settings) : Contract c σ where
  floor ps _ := Stemming chain ps
  batch b := b.single = false ∧ ∀ e, b.stage = .done (.ok e) → Given chain b.texts e
  answer texts r := ∀ e, r = .ok e → Given chain texts e
  move := by
    intro t f f' b b' hf _ hs hb _ m
    have hm := m.frame
    refine ⟨?_, hm.single.trans hb.1, ?_⟩
    · obtain he | ⟨i, p, hp, he⟩ := m.providers <;> rw [he]
      · exact hf
      · exact hf.set hp b.texts
    · intro e he
      obtain ⟨i, p, vectors, store, store', hp, hr, hw, hc⟩ := m.answered hb.1 he
      obtain ⟨q, hq, calls, rfl⟩ := hf p (List.mem_of_getElem? hp)
      obtain ⟨-, -, hk⟩ := Store.widenings_spec hw hs
      rw [hm.texts]
      exact checkVectors_given hq hr hc (hk.sane hs)
  fresh _ _ := ⟨rfl, fun _ h => nomatch h⟩
  done hb hr e he := hb.2 e (he ▸ hr)

end CodeIndex.Embedding
