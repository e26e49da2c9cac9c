import CodeIndex.Proofs.Indexing.History

/-!
What a recorded fingerprint stands for. Whatever providers answer, and whatever the tree looks like at each operation,
the records of a file are those of all chunks of one content, and that content has the fingerprint recorded.
-/

namespace CodeIndex

open CodeIndex.Embedding Files Lexical Relation

variable {c : IndexerConfig} {σ : Store.Settings} {k : Contract c.pipeline σ} {S : Scope} {x x' : Indexer}
  {project : String}

namespace Embedding

/-- Answers under a contract fit if the store lets in what the providers announce. -/
theorem answering_fits {chain : List Signature} (h : ∀ s ∈ chain, σ.Admits s.dimensions) :
    (Contract.answering c.pipeline chain σ).Fits := by
  intro texts e he
  obtain ⟨hlength, hsize, -, s, hs, -, hd⟩ := he e rfl
  refine ⟨hlength, fun v hv => ⟨hsize v hv, ?_⟩⟩
  rw [hsize v hv]
  rcases hd with hd | hd
  · exact hd ▸ h s hs
  · exact hd

theorem hashing_fits {dims : Nat} (h : σ.Admits (max dims 1)) : (Contract.hashing c.pipeline dims σ).Fits := by
  intro texts e he
  cases he
  refine ⟨List.length_map _, fun v hv => ?_⟩
  obtain ⟨text, -, rfl⟩ := List.mem_map.1 hv
  have hv : (hashEmbed text (max dims 1)).size = max dims 1 := by
    rw [size_hashEmbed]
    omega
  rw [hv]
  exact ⟨rfl, h⟩

end Embedding

theorem Store.Tidy.deleteFiles {s : Store} (h : s.Tidy k S) (project : String) (rels : List String) :
    (rels.foldl (fun s rel => s.deleteFile (fileId project rel)) s).Tidy k S := by
  induction rels generalizing s with
  | nil => exact h
  | cons rel rels ih => exact ih (h.deleteFile (fileId project rel))

namespace Indexer

/-- Providers at work for a contract, and a store in order. -/
structure Orderly (k : Contract c.pipeline σ) (S : Scope) (x : Indexer) : Prop where
  floor : k.floor x.world.providers x.world.health
  tidy : x.world.store.Tidy k S

theorem Orderly.change (hc : c.ParserFits) (hk : k.Fits) (hS : S.Suits σ) (hx : Change c S x x')
    (h : x.Orderly k S) : x'.Orderly k S := by
  cases hx with
  | wait ms => exact ⟨h.floor, h.tidy⟩
  | clear project hm => exact ⟨h.floor, h.tidy.clear hc hk project⟩
  | intake project force s files hf hs =>
    obtain ⟨log, hi⟩ := intake_spec (c := c) h.floor h.tidy.settings h.tidy.sane hs hf.nodup project force
    exact ⟨hi.floor, (h.tidy.traced hc hk hS hi.traced fun y hy => ⟨(logged_pending hf).admitted _ (hi.mem y hy),
      (logged_pending hf).project _ (hi.mem y hy)⟩).1⟩
  | forget project rels =>
    refine ⟨?_, ?_⟩
    · rw [world_forgetAll]
      exact h.floor
    · rw [world_forgetAll]
      exact h.tidy.deleteFiles project rels

end Indexer

/-- Number, content, lines and fingerprint of a record. -/
def Record.extent (r : Record) : Nat × String × Nat × Nat × String :=
  (r.index, r.content, r.startLine, r.endLine, r.hash)

/-- There is a content with the fingerprint of a file, and the records of the file are those of its chunks, each of
them once and in order. -/
def Store.Complete (c : IndexerConfig) (s : Store) (m : FileEntry) : Prop :=
  ∃ content language, fingerprint content = m.hash ∧ language.id = m.language ∧ Language.Suits m.path language ∧
    let chunks := Chunk.splitOversized (Chunk.parseBytes language content (c.parser language)).chunks
      c.pipeline.maxChunkSize c.pipeline.overlapLines
    chunks.map (·.index) = List.range chunks.length ∧
      (s.rows.filter (·.fileId == m.id)).map Record.extent =
        chunks.map fun chunk => (chunk.index, chunk.content, chunk.startLine, chunk.endLine, m.hash)

theorem Store.Tidy.complete {s : Store} (h : s.Tidy k S) (hk : k.Fits) {m : FileEntry} (hm : m ∈ s.entries) :
    s.Complete c m := by
  obtain ⟨p, rfl, hp, embedded, ha, hr⟩ := h.filed m hm
  obtain ⟨f, language, he, -, hl⟩ := hp.read
  have hfile : fingerprint f.content = p.file.hash ∧ language.id = p.file.language ∧ f.rel = p.file.path := by
    rw [he]
    exact ⟨rfl, rfl, rfl⟩
  have hpieces : p.pieces c.pipeline = Chunk.splitOversized
      (Chunk.parseBytes language f.content (c.parser language)).chunks c.pipeline.maxChunkSize
        c.pipeline.overlapLines := by
    rw [he]
    rfl
  refine ⟨f.content, language, hfile.1, hfile.2.1, hfile.2.2 ▸ hl, Chunk.index_splitOversized _ _ _, ?_⟩
  rw [hr, ← hpieces]
  exact map_records hk ha _ _ fun _ _ _ => rfl

/-- A recorded fingerprint stands for a complete set of records, and there are no others. -/
theorem entries_complete (c : IndexerConfig) (S : Scope) (x : Indexer) (ops : List Operation) (hc : c.ParserFits)
    (hentries : x.world.store.entries = []) (hrows : x.world.store.rows = []) (hsane : x.world.store.Sane)
    (hlimit : x.world.store.settings.limit = none)
    (hbounds : x.world.store.settings.bounded = true →
      S.size < 2 ^ 63 ∧ ∀ p ∈ x.world.providers, p.signature.dimensions < 2 ^ 63)
    (hops : ∀ op ∈ ops, op.Within S c) :
    (∀ m ∈ (x.run c ops).world.store.entries, (x.run c ops).world.store.Complete c m) ∧
      ∀ r ∈ (x.run c ops).world.store.rows, ∃ m ∈ (x.run c ops).world.store.entries, m.id = r.fileId := by
  have hk : (Contract.answering c.pipeline (x.world.providers.map Provider.signature) x.world.store.settings).Fits := by
    refine answering_fits fun s hs => ?_
    obtain ⟨p, hp, rfl⟩ := List.mem_map.1 hs
    exact ⟨fun hb => (hbounds hb).2 p hp, fun limit hl => absurd (hlimit.symm.trans hl) nofun⟩
  have hx : x.Orderly (Contract.answering c.pipeline (x.world.providers.map Provider.signature)
      x.world.store.settings) S := by
    refine ⟨rfl, ⟨hsane, ?_, ?_⟩, rfl, ?_, ?_⟩
    · rw [hentries]
      exact List.nodup_nil
    · rw [hentries]
      exact nofun
    · rw [hentries]
      exact nofun
    · rw [hrows]
      exact nofun
  have h := Indexer.run_preserves (fun _ _ => Indexer.Orderly.change hc hk fun hb => (hbounds hb).1) hops hx
  exact ⟨fun m hm => h.tidy.complete hk hm, h.tidy.owned⟩

/-- A tree that is indexed twice, the second time by force, into tables. -/
theorem entries_complete_oneFile :
    let y := (freshIndexer (.table {}) [failingOnce, .hashing 8]).run plainConfig
      [.index oneFile "/" false, .index oneFile "/" true]
    (∀ m ∈ y.world.store.entries, y.world.store.Complete plainConfig m) ∧
      ∀ r ∈ y.world.store.rows, ∃ m ∈ y.world.store.entries, m.id = r.fileId := by
  refine entries_complete plainConfig oneScope _ _ nofun rfl rfl (Nat.two_pow_pos 63) rfl (fun _ => ⟨by decide, ?_⟩) ?_
  · decide
  · intro op ho
    simp only [List.mem_cons, List.not_mem_nil, or_false] at ho
    rcases ho with rfl | rfl <;> exact index_oneFile_within _

end CodeIndex
