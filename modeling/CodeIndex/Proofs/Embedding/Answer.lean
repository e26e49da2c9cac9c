import CodeIndex.Proofs.Embedding.Sweep
import CodeIndex.Proofs.Store.View

/-!
What batches end with. A contract is kept by every step, so it holds of all batches of a run. Under any providers
the vectors of an answer fit the texts and the signature that they come with; a chain of the hashing provider alone
answers every batch.
-/

namespace CodeIndex

open Relation

/-- Room for longer vectors is all that widening makes. -/
theorem Store.widenings_spec {s s' : Store} (h : ReflTransGen Store.Widening s s') (hs : s.Sane) :
    s'.rows = s.rows ∧ s'.entries = s.entries ∧ s.Keeps s' := by
  induction h with
  | refl => exact ⟨rfl, rfl, .refl s⟩
  | tail _ hw ih =>
    obtain ⟨hr, he, hk⟩ := ih
    obtain ⟨d, hw⟩ := hw
    obtain ⟨hr', he', hk', -⟩ := widen_spec hw (hk.sane hs)
    exact ⟨hr'.trans hr, he'.trans he, hk.trans hk'⟩

namespace Embedding

open Health

variable {c : PipelineConfig} {σ : Store.Settings} {t : Task} {f f' : Floor} {b b' : Batch}

/-- What holds of providers and their health, and of each batch, all the time, and of the answers that batches end
with. -/
structure Contract (c : PipelineConfig) (σ : Store.Settings) where
  floor : List Provider → Registry → Prop
  batch : Batch → Prop
  answer : List String → Except IndexError Embedded → Prop
  move {t : Task} {f f' : Floor} {b b' : Batch} : floor f.providers f.health → f.store.settings = σ → f.store.Sane →
    batch b → b.stage.Sound f.providers.length c.retry.attempts → b.Move c t f f' b' →
    floor f'.providers f'.health ∧ batch b'
  fresh (texts : List String) : texts ≠ [] → batch ⟨texts, false, .choose 0⟩
  done {b : Batch} {r : Except IndexError Embedded} : batch b → b.stage = .done r → answer b.texts r

namespace Contract

variable (k : Contract c σ)

/-- The floor as a contract has it, with the store's settings. -/
structure Kept (f : Floor) : Prop where
  floor : k.floor f.providers f.health
  settings : f.store.settings = σ
  sane : f.store.Sane

variable {k}

theorem course (h : k.Kept f) (hb : k.batch b) (hs : b.stage.Sound f.providers.length c.retry.attempts)
    (hc : b.Course c t f f' b') : k.Kept f' ∧ k.batch b' := by
  induction hc with
  | rest => exact ⟨h, hb⟩
  | move m _ ih =>
    obtain ⟨hf, hb'⟩ := k.move h.floor h.settings h.sane hb hs m
    obtain ⟨-, -, hk⟩ := Store.widenings_spec m.frame.store h.sane
    exact ih ⟨hf, hk.settings.trans h.settings, hk.sane h.sane⟩ hb' (m.sound hs)

theorem sweep {id i : Nat} {bs bs' : List Batch} (h : k.Kept f) (hb : ∀ b ∈ bs, k.batch b)
    (hs : ∀ b ∈ bs, b.stage.Sound f.providers.length c.retry.attempts) (hw : Sweep c id i f bs f' bs') :
    k.Kept f' ∧ ∀ b ∈ bs', k.batch b := by
  induction hw with
  | nil => exact ⟨h, hb⟩
  | cons hc _ _ _ ih =>
    obtain ⟨hf, hb₁⟩ := course h (hb _ List.mem_cons_self) (hs _ List.mem_cons_self) hc
    obtain ⟨hf', hbs⟩ := ih hf (fun b hm => hb b (List.mem_cons_of_mem _ hm)) fun b hm => by
      rw [hc.frame.providers_length]
      exact hs b (List.mem_cons_of_mem _ hm)
    refine ⟨hf', fun b hm => ?_⟩
    rcases List.mem_cons.1 hm with rfl | hm
    · exact hb₁
    · exact hbs b hm

end Contract

/-- An answer with a vector for each text, all of the length that its signature tells. The signature is that of a
provider of the chain; where the length is another than the provider's own, the store has room for it. -/
structure Answered (chain : List Signature) (σ : Store.Settings) (texts : List String) (e : Embedded) : Prop where
  length : e.vectors.length = texts.length
  size : ∀ v ∈ e.vectors, v.size = e.signature.dimensions
  nonempty : ∀ v ∈ e.vectors, v.isEmpty = false
  source : ∃ s ∈ chain, e.signature = { s with dimensions := e.signature.dimensions } ∧
    (e.signature.dimensions = s.dimensions ∨ σ.Admits e.signature.dimensions)

theorem checkVectors_answered {store store' : Store} {p : Provider} {texts : List String} {vectors : List Vec}
    {e : Embedded} (h : checkVectors store p texts.length vectors = .ok (store', e)) (hs : store.Sane)
    {chain : List Signature} (hp : p.signature ∈ chain) : Answered chain store.settings texts e := by
  unfold checkVectors at h
  split at h
  · cases h
  · rename_i hguard
    rw [not_or, Bool.not_eq_true, List.any_eq_false, ne_eq, not_not] at hguard
    have hne : ∀ v ∈ vectors, v.isEmpty = false := fun v hv => Bool.eq_false_iff.2 (hguard.2 v hv)
    simp only at h
    split at h
    · cases h
    · rename_i hany
      rw [Bool.not_eq_true, List.any_eq_false] at hany
      have hsize : ∀ v ∈ vectors, v.size = (vectors.head?.map (·.size)).getD 0 := fun v hv => by
        simpa using hany v hv
      split at h
      · rename_i hd
        cases h
        exact ⟨hguard.1, fun v hv => (hsize v hv).trans hd, hne, _, hp, rfl, .inl rfl⟩
      · split at h
        · cases h
        · rename_i hw
          cases h
          obtain ⟨-, -, -, ha⟩ := Store.widen_spec hw hs
          exact ⟨hguard.1, hsize, hne, _, hp, rfl, .inr ha⟩

theorem map_signature {ps qs : List Provider} (h : ps.map Provider.identity = qs.map Provider.identity) :
    ps.map Provider.signature = qs.map Provider.signature := by
  have hs : ∀ l : List Provider, l.map Provider.signature =
      (l.map Provider.identity).map fun p => ⟨s!"{p.1}:{p.2.1}", p.2.2, float32⟩ := fun l => by
    rw [List.map_map]
    rfl
  rw [hs, hs, h]

theorem Batch.Move.fits {chain : List Signature} {e : Embedded} (m : b.Move c t f f' b') (hb : b.single = false)
    (hσ : f.store.settings = σ) (hs : f.store.Sane) (hchain : ∀ p ∈ f.providers, p.signature ∈ chain)
    (he : b'.stage = .done (.ok e)) : Answered chain σ b'.texts e := by
  obtain ⟨i, p, vectors, store, store', hp, -, hw, hc⟩ := m.answered hb he
  obtain ⟨-, -, hk⟩ := Store.widenings_spec hw hs
  have ha := checkVectors_answered hc (hk.sane hs) (hchain p (List.mem_of_getElem? hp))
  rwa [hk.settings, hσ, ← m.frame.texts] at ha

/-- Whatever providers do, each answer fits its texts. -/
def Contract.answering (c : PipelineConfig) (chain : List Signature) (σ : Store.Settings) : Contract c σ where
  floor ps _ := ps.map Provider.signature = chain
  batch b := b.single = false ∧ ∀ e, b.stage = .done (.ok e) → Answered chain σ b.texts e
  answer texts r := ∀ e, r = .ok e → Answered chain σ texts e
  move hf hσ hs hb _ m :=
    ⟨(map_signature m.frame.providers).trans hf, m.frame.single.trans hb.1, fun _ =>
      m.fits hb.1 hσ hs fun _ hp => hf ▸ List.mem_map_of_mem hp⟩
  fresh _ _ := ⟨rfl, fun _ h => nomatch h⟩
  done hb hr e he := hb.2 e (he ▸ hr)

/-- The same of any providers out of some. -/
def Contract.among (c : PipelineConfig) (chain : List Signature) (σ : Store.Settings) : Contract c σ where
  floor ps _ := ps.map Provider.signature ⊆ chain
  batch b := b.single = false ∧ ∀ e, b.stage = .done (.ok e) → Answered chain σ b.texts e
  answer texts r := ∀ e, r = .ok e → Answered chain σ texts e
  move hf hσ hs hb _ m :=
    ⟨map_signature m.frame.providers ▸ hf, m.frame.single.trans hb.1, fun _ =>
      m.fits hb.1 hσ hs fun _ hp => hf (List.mem_map_of_mem hp)⟩
  fresh _ _ := ⟨rfl, fun _ h => nomatch h⟩
  done hb hr e he := hb.2 e (he ▸ hr)

theorem size_hashEmbed (text : String) (dims : Nat) : (hashEmbed text dims).size = max dims 1 := by
  have hadd : ∀ (ts : List String) (v : Vec), (ts.foldl (addToken (max dims 1)) v).size = v.size := by
    intro ts
    induction ts with
    | nil => intro v; rfl
    | cons t ts ih =>
      intro v
      rw [List.foldl_cons, ih]
      simp [addToken]
  have hn : ∀ v : Vec, (normalize v).size = v.size := by
    intro v
    simp only [normalize]
    split
    · exact Array.size_map
    · rfl
  simp only [hashEmbed]
  rw [hn, hadd, Array.size_replicate]

/-- The answer of the hashing provider. -/
def hashed (dims : Nat) (texts : List String) : Embedded :=
  ⟨texts.map (hashEmbed · (max dims 1)), (Provider.hashing dims).signature⟩

theorem checkVectors_hashed (store : Store) (dims calls count : Nat) {texts : List String} (hne : texts ≠ []) :
    checkVectors store { Provider.hashing dims with calls, texts := count } texts.length
      (texts.map (hashEmbed · (max dims 1))) = .ok (store, hashed dims texts) := by
  have hsize : ∀ text, (hashEmbed text (max dims 1)).size = max dims 1 := fun text => by
    rw [size_hashEmbed]
    omega
  have hempty : (texts.map (hashEmbed · (max dims 1))).any (·.isEmpty) = false := by
    simp only [List.any_map, List.any_eq_false, Function.comp, Array.isEmpty, hsize]
    intro text _
    simp
  obtain ⟨text, rest, rfl⟩ := List.exists_cons_of_ne_nil hne
  unfold checkVectors
  rw [if_neg (by rw [hempty]; simp)]
  simp only [List.map_cons, List.head?_cons, Option.map_some, Option.getD_some, hsize]
  rw [if_neg (by simp [hsize]), if_pos (by rfl)]
  rfl

/-- A hashing provider at any time: only its counts of calls and texts have changed. -/
def IsHashing (dims : Nat) (p : Provider) : Prop :=
  ∃ calls texts, p = { Provider.hashing dims with calls, texts }

theorem IsHashing.call {dims : Nat} {p : Provider} (h : IsHashing dims p) (texts : List String) :
    IsHashing dims (p.call texts).1 ∧ (p.call texts).2 = .ok (texts.map (hashEmbed · (max dims 1))) := by
  obtain ⟨calls, count, rfl⟩ := h
  exact ⟨⟨calls + 1, count + texts.length, rfl⟩, rfl⟩

theorem IsHashing.name {dims : Nat} {p : Provider} (h : IsHashing dims p) : p.name = Provider.localName := by
  obtain ⟨_, _, rfl⟩ := h
  rfl

theorem IsHashing.checkVectors {dims : Nat} {p : Provider} (h : IsHashing dims p) (store : Store) {texts : List String}
    (hne : texts ≠ []) :
    checkVectors store p texts.length (texts.map (hashEmbed · (max dims 1))) = .ok (store, hashed dims texts) := by
  obtain ⟨calls, count, rfl⟩ := h
  exact checkVectors_hashed store dims calls count hne

/-- A call whose vectors pass the check ends with an answer, and with a success on the record of its provider. -/
theorem Batch.Ending.eq_answer {i : Nat} {p : Provider} {vectors : List Vec} {store : Store} {e : Embedded}
    (h : Ending f b i p (.ok vectors) f' b') (hs : b.single = false)
    (hc : checkVectors f.store p b.texts.length vectors = .ok (store, e)) :
    f' = { f with store, health := f.health.recordSuccess p.name } ∧ b' = { b with stage := .done (.ok e) } := by
  cases h with
  | single _ h => exact absurd h (by rw [hs]; exact Bool.false_ne_true)
  | answer vectors' store' e' hr hc' =>
    cases hr
    rw [hc] at hc'
    cases hc'
    exact ⟨rfl, rfl⟩
  | refusal vectors' e' hr hc' =>
    cases hr
    rw [hc] at hc'
    cases hc'
  | failure _ _ hr =>
    obtain ⟨e', hc'⟩ := hr _ rfl
    rw [hc] at hc'
    cases hc'

/-- The stages of a batch of a chain that answers at once. -/
def Stage.Answering (answer : Embedded) : Stage → Prop
  | .choose i => i = 0
  | .permit _ | .slot .. | .call .. => True
  | .backoff .. | .cooldown .. => False
  | .done r => r = .ok answer

/-- A chain of the hashing provider alone answers every batch while nothing keeps its calls away. -/
def Contract.hashingWhile {healthy : Registry → Prop} (hh : Registry.Unharmed Provider.localName healthy)
    (c : PipelineConfig) (dims : Nat) (σ : Store.Settings) : Contract c σ where
  floor ps health := (∃ p, ps = [p] ∧ IsHashing dims p) ∧ healthy health
  batch b := b.single = false ∧ b.texts ≠ [] ∧ b.stage.Answering (hashed dims b.texts)
  answer texts r := r = .ok (hashed dims texts)
  move := by
    intro t f f' b b' hf _ _ hb hsound m
    obtain ⟨⟨p₀, hps, hp₀⟩, hhealth⟩ := hf
    obtain ⟨hsingle, htexts, hstage⟩ := hb
    have found : ∀ {i p}, f.providers[i]? = some p → i = 0 ∧ p = p₀ := by
      intro i p hp
      rw [hps] at hp
      cases i with
      | zero => exact ⟨rfl, (Option.some.inj hp).symm⟩
      | succ i => cases hp
    cases m with
    | lost i h hp =>
      simp only [h, Stage.Answering] at hstage
      simp [hps, hstage] at hp
    | pass i p h hp ha =>
      obtain ⟨-, rfl⟩ := found hp
      rw [hp₀.name, hh.available hhealth] at ha
      cases ha
    | queue => exact ⟨⟨⟨p₀, hps, hp₀⟩, hhealth⟩, hsingle, htexts, trivial⟩
    | take i p f₁ health he hp ha =>
      exact ⟨⟨⟨p₀, he.providers.trans hps, hp₀⟩, hh.acquire ha hhealth⟩, hsingle, htexts, trivial⟩
    | wait i p f₁ he hp =>
      exact ⟨⟨⟨p₀, he.providers.trans hps, hp₀⟩, hh.refresh _ _ hhealth⟩, hsingle, htexts, trivial⟩
    | retry i left wake p e h hp he =>
      obtain ⟨-, rfl⟩ := found hp
      rw [(hp₀.call b.texts).2] at he
      cases he
    | finish i left p g d h hp he =>
      obtain ⟨rfl, rfl⟩ := found hp
      obtain ⟨hq, hcall⟩ := hp₀.call b.texts
      rw [hcall] at he
      obtain ⟨rfl, rfl⟩ := he.eq_answer hsingle (hp₀.checkVectors _ htexts)
      obtain ⟨hproviders, hreleased⟩ := f.finish_eq 0 p b.texts
      refine ⟨⟨⟨_, hproviders.trans ?_, hq⟩, hh.recordSuccess _ ?_⟩, hsingle, htexts, rfl⟩
      · rw [hps, List.set_cons_zero]
      · rw [hreleased]
        exact hh.release p.name hhealth
    | resume i left since wake h =>
      rw [h] at hstage
      exact hstage.elim
    | reopen i since wake h =>
      rw [h] at hstage
      exact hstage.elim
  fresh texts h := ⟨rfl, h, rfl⟩
  done := by
    intro b r hb hr
    obtain ⟨-, -, hstage⟩ := hb
    rw [hr] at hstage
    exact hstage

theorem results_hashing {healthy : Registry → Prop} {hh : Registry.Unharmed Provider.localName healthy} {dims : Nat}
    {groups : List (List String)} {results : List (Except IndexError Embedded)}
    (h : List.Forall₂ (Contract.hashingWhile hh c dims σ).answer groups results) :
    results = (groups.map (hashed dims)).map .ok := by
  have hall := List.forall₂_map_left_iff (f := fun texts => Except.ok (hashed dims texts))
    (R := fun r r' => r' = r) |>.2 h
  rw [List.map_map]
  exact List.forall₂_eq_eq_eq ▸ hall.flip

/-- A chain of the hashing provider alone answers every batch. -/
def Contract.hashing (c : PipelineConfig) (dims : Nat) (σ : Store.Settings) : Contract c σ :=
  hashingWhile (Registry.unharmed_untroubled Provider.localName) c dims σ

end Embedding

end CodeIndex
