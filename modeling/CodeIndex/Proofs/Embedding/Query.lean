import CodeIndex.Proofs.Embedding.Chain
import CodeIndex.Proofs.Store.Interchange

/-!
A query about a project whose records are of the model of one of the providers. If that provider may be called and
answers, it embeds the query and no other is called: as the stored model, past the chain, or at its turn in the chain
if all before it are passed over. Both ways leave the same world.
-/

namespace CodeIndex.Embedding

open Health

variable {c : PipelineConfig} {w : World} {text : String} {i wait : Nat} {p : Provider} {v : Vec}

/-- A world in which a provider was called for some texts, and its answer was taken. -/
def World.answered (w : World) (c : PipelineConfig) (texts : List String) (i : Nat) (p : Provider) (wait : Nat) :
    World :=
  { w.at (w.monitor.run (p.calling c texts wait ++ [.success p.name])) with
    providers := w.providers.set i (p.tried c texts).state }

/-- With no call under way a slot is free. -/
theorem Provider.wait?_of_idle (h : w.health.Idle) (p : Provider) : p.wait? w.monitor = some 0 :=
  Entry.pollWait?_of_idle h.default (h.recommended p.name) (h.inFlight p.name) w.now

/-- Calls change nothing about a provider that never changes. -/
theorem Provider.identity_tried (c : PipelineConfig) (texts : List String) (p : Provider) :
    (p.tried c texts).state.identity = p.identity := by
  have hfrom : ∀ (left : Nat) (waits : List Nat) (p : Provider),
      (c.retry.tryFrom (fun p => p.call texts) waits p left).state.identity = p.identity := by
    intro left
    induction left with
    | zero => exact fun _ _ => rfl
    | succ left ih =>
      intro waits p
      unfold RetryPolicy.tryFrom
      dsimp only
      split
      · rfl
      · exact (ih _ _).trans (p.identity_call texts)
  exact hfrom _ _ p

/-- A vector of the provider's own length is taken as it is. -/
theorem checkVectors_own (store : Store) (hv : v.size = p.dimensions) (hd : p.dimensions ≠ 0) :
    checkVectors store p 1 [v] = .ok (store, ⟨[v], p.signature⟩) := by
  have hne : v.isEmpty = false := by
    rw [← Bool.not_eq_true, Array.isEmpty_iff_size_eq_zero, hv]
    exact hd
  simp [checkVectors, hv, hne]

/-- Providers whose circuits are open are passed over, all in a row. -/
theorem runAlone_passedAll {f : Floor} (texts : List String) (hi : i ≤ f.providers.length)
    (h : ∀ q ∈ f.providers.take i, f.health.isAvailable f.now q.name = false) :
    Batch.runAlone c f ⟨texts, false, .choose 0⟩ = Batch.runAlone c f ⟨texts, false, .choose i⟩ := by
  induction i with
  | zero => rfl
  | succ i ih =>
    rw [List.take_succ_eq_append_getElem hi] at h
    rw [ih (Nat.le_of_succ_le hi) fun q hq => h q (List.mem_append_left _ hq)]
    exact Batch.runAlone_passed texts (List.getElem?_eq_getElem hi) (h _ (List.mem_append_right _ List.mem_cons_self))

/-- A batch alone whose course leads to its end. -/
theorem embedAlone_of_done {texts : List String} {o : Bool} {b : Batch} {f : Floor} {r : Except IndexError Embedded}
    (h : Batch.runAlone c { w with freePermits := max 1 c.batchConcurrency } b = Batch.runAlone c f ⟨texts, o, .done r⟩) :
    w.embedAlone c b = (f.toWorld, some r) := by
  unfold World.embedAlone
  rw [h, Batch.runAlone_done]
  rfl

/-- The provider of the stored model answers, and its answer is taken without a look at its length. -/
theorem embedStored?_answered (hp : w.providers[i]? = some p) (ha : w.health.isAvailable w.now p.name = true)
    (hw : p.wait? w.monitor = some wait) (hreply : (p.tried c [text]).outcome = .ok [v]) (hv : v.size ≠ 0) :
    w.embedStored? c text i = (w.answered c [text] i p wait, some v) := by
  have hi : i < w.providers.length := (List.getElem?_eq_some_iff.1 hp).1
  have hrun := runAlone_called c w [text] true hp (show 0 < max 1 c.batchConcurrency by omega) ha hw
  dsimp only at hrun
  rw [hreply] at hrun
  have halone : w.embedAlone c ⟨[text], true, .choose i⟩ =
      ({ w.at (w.monitor.run (p.calling c [text] wait)) with
          providers := w.providers.set i (p.tried c [text]).state }, some (.ok ⟨[v], p.signature⟩)) :=
    embedAlone_of_done hrun
  have hne : v.isEmpty = false := by
    rw [← Bool.not_eq_true, Array.isEmpty_iff_size_eq_zero]
    exact hv
  have hname : (p.tried c [text]).state.name = p.name := congrArg Prod.fst (p.identity_tried c [text])
  unfold World.embedStored?
  simp only [halone, hne, List.getElem?_set_self hi, hname]
  rfl

/-- The first provider that may be called answers at its turn. -/
theorem embedLive_answered (hp : w.providers[i]? = some p)
    (hbefore : ∀ q ∈ w.providers.take i, w.health.isAvailable w.now q.name = false)
    (ha : w.health.isAvailable w.now p.name = true) (hw : p.wait? w.monitor = some wait)
    (hreply : (p.tried c [text]).outcome = .ok [v]) (hv : v.size = p.dimensions) (hd : p.dimensions ≠ 0) :
    w.embedLive c text = (w.answered c [text] i p wait, .ok v) := by
  have hi : i < w.providers.length := (List.getElem?_eq_some_iff.1 hp).1
  have hverdict : p.verdict c w.store [text] = .answered w.store ⟨[v], p.signature⟩ := by
    have hcheck : checkVectors w.store p [text].length [v] = _ := checkVectors_own w.store hv hd
    simp only [Provider.verdict, hreply, hcheck]
  have hpassed := runAlone_passedAll (c := c) (f := { w with freePermits := max 1 c.batchConcurrency }) [text]
    (Nat.le_of_lt hi) hbefore
  have hrun := runAlone_called c w [text] false hp (show 0 < max 1 c.batchConcurrency by omega) ha hw
  dsimp only at hrun
  rw [Batch.conclude_verdict] at hrun
  dsimp only at hrun
  rw [hverdict] at hrun
  have halone : w.embedAlone c ⟨[text], false, .choose 0⟩ =
      (w.answered c [text] i p wait, some (.ok ⟨[v], p.signature⟩)) := embedAlone_of_done (hpassed.trans hrun)
  unfold World.embedLive
  simp only [halone, List.head?_cons]

/-- Of providers with different models only one has the stored one. -/
theorem eq_of_signature {ps : List Provider} (hn : (ps.map Provider.signature).Nodup) {j : Nat} {q : Provider}
    (hp : ps[i]? = some p) (hq : ps[j]? = some q) (h : q.signature = p.signature) : j = i := by
  have hj : j < (ps.map Provider.signature).length := by
    rw [List.length_map]
    exact (List.getElem?_eq_some_iff.1 hq).1
  refine (List.getElem?_inj hj hn).1 ?_
  rw [List.getElem?_map, List.getElem?_map, hp, hq, Option.map_some, Option.map_some, h]

/-- If the stored model is the one in use, its provider is the first that may be called. -/
theorem passed_of_active (hn : (w.providers.map Provider.signature).Nodup) (hp : w.providers[i]? = some p)
    (hlive : w.activeSignature = some p.signature) :
    ∀ q ∈ w.providers.take i, w.health.isAvailable w.now q.name = false := by
  obtain ⟨q, hq, hsignature⟩ := Option.map_eq_some_iff.1 hlive
  obtain ⟨-, before, after, hproviders, hbefore⟩ := List.find?_eq_some_iff_append.1 hq
  have hi : before.length = i := eq_of_signature hn hp (by rw [hproviders, getElem?_chain]) hsignature
  intro q hq
  rw [hproviders, ← hi, List.take_left] at hq
  simpa using hbefore q hq

/-- If it is not, its provider is found in its place. -/
theorem storedProvider?_eq {project : String} (hn : (w.providers.map Provider.signature).Nodup)
    (hstored : w.store.projectModel project = some p.signature) (hp : w.providers[i]? = some p)
    (ha : w.health.isAvailable w.now p.name = true) (hlive : w.activeSignature ≠ some p.signature) :
    w.storedProvider? project = some i := by
  have hfind : w.providers.findIdx? (·.signature == p.signature) = some i := by
    rw [List.findIdx?_eq_some_iff_getElem]
    obtain ⟨hi, rfl⟩ := List.getElem?_eq_some_iff.1 hp
    refine ⟨hi, beq_self_eq_true _, fun j hj hsame => ?_⟩
    have hji := eq_of_signature hn hp (List.getElem?_eq_getElem (Nat.lt_trans hj hi)) (beq_iff_eq.1 hsame)
    omega
  simp [World.storedProvider?, hstored, hlive, hfind, hp, ha]

/-- Whichever provider is the one in use: if that of the stored model may be called, gets a slot and answers, perhaps
after some tries, with one vector of its length, that vector is the answer to the query. Of all providers it alone is
called, and nothing else happens but that the time of its calls passes and its success is booked. -/
theorem embedQuery_stored (c : PipelineConfig) (w : World) (text project : String) {stored : Signature} {i wait : Nat}
    {p : Provider} {v : Vec} (hn : (w.providers.map Provider.signature).Nodup)
    (hstored : w.store.projectModel project = some stored) (hp : w.providers[i]? = some p)
    (hs : p.signature = stored) (ha : w.health.isAvailable w.now p.name = true)
    (hw : p.wait? w.monitor = some wait) (hreply : (p.tried c [text]).outcome = .ok [v])
    (hv : v.size = p.dimensions) (hd : p.dimensions ≠ 0) :
    let out := w.embedQuery c text (some project)
    out.2 = .ok v ∧ out.1 = w.answered c [text] i p wait ∧ out.1.store = w.store ∧
      out.1.providers[i]? = some (p.tried c [text]).state ∧ ∀ j ≠ i, out.1.providers[j]? = w.providers[j]? := by
  intro out
  subst hs
  have hout : out = (w.answered c [text] i p wait, .ok v) := by
    by_cases hlive : w.activeSignature = some p.signature
    · -- the chain comes to it first
      have hnone : w.storedProvider? project = none := by simp [World.storedProvider?, hstored, hlive]
      have hanswered := embedLive_answered hp (passed_of_active hn hp hlive) ha hw hreply hv hd
      simp only [out, World.embedQuery, Option.bind_some, hnone, hanswered]
    · have hsome := storedProvider?_eq hn hstored hp ha hlive
      have hanswered := embedStored?_answered hp ha hw hreply (hv ▸ hd)
      simp only [out, World.embedQuery, Option.bind_some, hsome, hanswered]
  rw [hout]
  refine ⟨rfl, rfl, rfl, ?_, fun j hj => ?_⟩
  · exact List.getElem?_set_self (List.getElem?_eq_some_iff.1 hp).1
  · exact List.getElem?_set_ne (Ne.symm hj)

def eastward : Vec := #[.one, .zero]

/-- A record that the second of two providers has embedded. The first time that this one is called it is not ready. -/
def secondStored (health : Registry) : World where
  providers := [
    { name := "a", model := "m", dimensions := 2, settled := .hashed 2 },
    { name := "b", model := "m", dimensions := 2, script := [.fails (.rateLimited "b" none)],
      settled := .vectors [eastward] }]
  health
  store := (Store.memory {}).after [.put { Store.noteRecord 2 with provider := "b:m", format := float32 }]

/-- Once the first provider is the one in use, and once its circuit is open. -/
theorem embedQuery_stored_second :
    [{ config := ⟨2, 3600000, 3, 60000, 8⟩ }, threeProviders.health].map (fun health =>
        let out := (secondStored health).embedQuery ⟨4, 100, 0, 1, 1, ⟨2, 10, 100⟩, 5⟩ "x" (some "p")
        (out.2, out.1.providers[0]?.map (·.calls), out.1.providers[1]?.map (·.calls))) =
      [(.ok eastward, some 0, some 2), (.ok eastward, some 0, some 2)] := by
  have havailable : ∀ health ∈ [{ config := ⟨2, 3600000, 3, 60000, 8⟩ }, threeProviders.health],
      health.isAvailable 0 "b" = true := by decide +kernel
  have hidle : ∀ health ∈ [{ config := ⟨2, 3600000, 3, 60000, 8⟩ }, threeProviders.health], health.Idle :=
    List.forall_mem_cons.2 ⟨Registry.idle_empty (by decide), List.forall_mem_singleton.2 idle_threeProviders⟩
  refine List.map_congr_left (g := fun _ => (Except.ok eastward, some 0, some 2)) fun health hhealth => ?_
  have hn : ((secondStored health).providers.map Provider.signature).Nodup := by
    change [Signature.mk _ _ _, Signature.mk _ _ _].Nodup
    decide
  obtain ⟨hanswer, -, -, hcalled, hothers⟩ := embedQuery_stored ⟨4, 100, 0, 1, 1, ⟨2, 10, 100⟩, 5⟩ (secondStored health)
    "x" "p" (v := eastward) hn rfl (i := 1) rfl rfl (havailable health hhealth)
    (Provider.wait?_of_idle (hidle health hhealth) _) rfl rfl (by decide)
  have hpassed := congrArg (Option.map Provider.calls) (hothers 0 (by decide))
  have htried := congrArg (Option.map Provider.calls) hcalled
  exact Prod.ext hanswer (Prod.ext hpassed htried)

end CodeIndex.Embedding
