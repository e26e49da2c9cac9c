import CodeIndex.Proofs.Indexing.Complete
import CodeIndex.Proofs.Indexing.Rerun

/-!
Words in step with records. With the hashing provider alone no file fails and no model changes, so at any time the
words kept for a path are those of the content that is recorded for it.
-/

namespace CodeIndex

open CodeIndex.Embedding Files Lexical

variable {c : IndexerConfig} {dims : Nat} {σ : Store.Settings} {S : Scope} {x x' : Indexer} {project : String}
  {files : List Discovered} {force : Bool}

theorem signature_recordOf {texts : List String} {e : Embedded} {vector : Vec}
    (he : (Contract.hashing c.pipeline dims σ).answer texts (.ok e)) (hv : vector ∈ e.vectors) (project : String)
    (file : FileEntry) (chunk : Chunk) :
    (recordOf project file chunk vector e.signature).signature = (Provider.hashing dims).signature := by
  cases he
  obtain ⟨text, -, rfl⟩ := List.mem_map.1 hv
  have hsize : (hashEmbed text (max dims 1)).size = max dims 1 := by
    rw [size_hashEmbed]
    omega
  simp only [Record.signature, recordOf, hsize]
  rfl

/-- Records of the hashing provider carry its signature. -/
theorem Store.Tidy.signature {s : Store} (h : s.Tidy (Contract.hashing c.pipeline dims σ) S) {r : Record}
    (hr : r ∈ s.rows) : r.signature = (Provider.hashing dims).signature := by
  obtain ⟨m, hm, hid⟩ := h.owned r hr
  obtain ⟨p, rfl, -, embedded, ha, hrs⟩ := h.filed m hm
  have hmem : r ∈ p.records c.pipeline embedded := hrs ▸ List.mem_filter.2 ⟨hr, beq_iff_eq.2 hid.symm⟩
  obtain ⟨chunk, -, texts, e, he, vector, hv, rfl⟩ := mem_records ha hmem
  exact signature_recordOf he hv p.file.project p.file chunk

namespace Indexer

/-- The hashing provider may always be called, so records are outdated that do not carry its signature. -/
theorem outdated_hashing (hf : (Contract.hashing c.pipeline dims σ).floor x.world.providers x.world.health) :
    x.world.Outdated project ↔
      ∃ r ∈ x.world.store.rows, r.project = project ∧ r.signature ≠ (Provider.hashing dims).signature := by
  obtain ⟨⟨p, hps, hp⟩, huntroubled⟩ := hf
  have hname : p.name = Provider.localName ∧ p.signature = (Provider.hashing dims).signature := by
    obtain ⟨calls, texts, rfl⟩ := hp
    exact ⟨rfl, rfl⟩
  have hactive : x.world.activeSignature = some (Provider.hashing dims).signature := by
    simp [World.activeSignature, hps, hname, huntroubled.isAvailable]
  unfold World.Outdated
  rw [hactive]
  simp

theorem needsMigration_hashing (h : x.world.store.Tidy (Contract.hashing c.pipeline dims σ) S)
    (hf : (Contract.hashing c.pipeline dims σ).floor x.world.providers x.world.health) (project : String) :
    x.world.needsMigration project = false := by
  rw [← Bool.not_eq_true, needsMigration_iff, outdated_hashing hf]
  rintro ⟨r, hr, -, hne⟩
  exact hne (h.signature hr)

/-- The words kept for a path with a name are those of a content that is recorded for it. -/
def Told (c : IndexerConfig) (S : Scope) (x : Indexer) : Prop :=
  ∀ project path entries, Path.lastPiece? (path.toList.splitOn '/') ≠ none →
    x.lexical.words? project path = some entries →
      ∃ m ∈ x.world.store.entries, m.project = project ∧ m.path = path ∧
        ∃ content ∈ S.contents, m.hash = fingerprint content ∧
          ∃ language, Language.ofPath? path = some language ∧ entries = c.words path language content

theorem Told.forget (h : x.Told c S) (hkeyed : x.world.store.Keyed S) {rels : List String}
    (hrels : ∀ rel ∈ rels, (project, rel) ∈ S.keys) : (x.forgetAll project rels).Told c S := by
  intro q path entries hpath hw
  rw [words?_forgetAll] at hw
  split at hw
  · cases hw
  · rename_i hnot
    obtain ⟨m, hm, rfl, rfl, hcontent⟩ := h q path entries hpath hw
    refine ⟨m, (mem_entries_forgetAll hkeyed rels).2 ⟨hm, fun rel hr he => hnot ?_⟩, rfl, rfl, hcontent⟩
    obtain ⟨hkey, hid⟩ := hkeyed.keyed m hm
    obtain ⟨hproject, hrel⟩ := Prod.mk.inj (S.fileId_inj (hrels rel hr) hkey (he.trans hid))
    exact ⟨hproject.symm, hrel ▸ hr⟩

variable {k : Contract c.pipeline σ} {s s' : Session} {log : List (Prepared × Outcome)}

/-- Files are taken in with their words and records together. -/
theorem Told.taken (h : x.Told c S) (hx : x.Named k S) (hf : S.Takes project files)
    (hi : Intake k project force files x x' s s' log) (hok : ∀ y ∈ log, y.2.error = none) : x'.Told c S := by
  intro q path entries hpath hw
  by_cases hq : q = project ∧ ∃ f ∈ files, f.rel = path ∧ ∃ language, f.language = .ok language
  · obtain ⟨rfl, f, hm, rfl, language, hlanguage⟩ := hq
    obtain ⟨m, hmem, hproject, hrel, hhash⟩ :=
      (isRecorded_iff (hx.taken hf hi).keyed (hf.normal f hm)).1
        (hx.recorded_taken hf hi hm (fun y hy _ => hok y hy) hlanguage).1
    rcases hi.reads.words f hm language hlanguage with hnew | ⟨-, hr, -, hold⟩
    · rw [hw] at hnew
      exact ⟨m, hmem, hproject, hrel, f.content, hf.content f hm, hhash, language,
        hf.language f hm language hlanguage hpath, Option.some.inj hnew⟩
    · -- its words are older, but of a content with the same fingerprint
      rw [hold] at hw
      obtain ⟨m₀, hm₀, hproject₀, hpath₀, content, hcontent, hhash₀, hwords⟩ := h q f.rel entries hpath hw
      obtain ⟨m₁, hm₁, hproject₁, hpath₁, hhash₁⟩ := (isRecorded_iff hx.keyed (hf.normal f hm)).1 hr
      have hsame : m₁ = m₀ :=
        hx.keyed.entry_eq hm₁ hm₀ (hproject₁.trans hproject₀.symm) (hpath₁.trans hpath₀.symm)
      refine ⟨m, hmem, hproject, hrel, content, hcontent, ?_, hwords⟩
      rw [hhash, ← hhash₀, ← hsame, hhash₁]
  · have hother : q = project → ∀ f ∈ files, f.rel = path → ∃ e, f.language = .error e := by
      intro he f hm hrel
      cases hl : f.language with
      | error e => exact ⟨e, rfl⟩
      | ok language => exact absurd ⟨he, f, hm, hrel, language, hl⟩ hq
    rw [hi.reads.others q path hother] at hw
    obtain ⟨m, hm, rfl, rfl, hcontent⟩ := h q path entries hpath hw
    refine ⟨m, (hx.mem_taken hf hi hok).2 (.inr ⟨hm, fun f hf' p hp he => ?_⟩), rfl, rfl, hcontent⟩
    obtain ⟨language, hl, rfl⟩ := pending?_spec hp
    obtain ⟨hkey, hid⟩ := hx.keyed.keyed m hm
    obtain ⟨hproject, hrel⟩ := Prod.mk.inj (S.fileId_inj (hf.key f hf') hkey (he.trans hid))
    obtain ⟨e, he⟩ := hother hproject.symm f hf' hrel
    cases hl.symm.trans he

/-- A store in order, and words in step with it, under the hashing provider alone. -/
structure Synced (c : IndexerConfig) (dims : Nat) (σ : Store.Settings) (S : Scope) (x : Indexer) : Prop
    extends x.Named (Contract.hashing c.pipeline dims σ) S where
  tidy : x.world.store.Tidy (Contract.hashing c.pipeline dims σ) S
  ordered : x.lexical.Ordered
  told : x.Told c S

/-- No file fails. -/
theorem Synced.answered (h : x.Synced c dims σ S) (hc : c.ParserFits) (hσ : σ.Admits (max dims 1)) (hS : S.Suits σ)
    (hf : S.Takes project files)
    (hi : Intake (Contract.hashing c.pipeline dims σ) project force files x x' s s' log) :
    x'.world.store.Tidy (Contract.hashing c.pipeline dims σ) S ∧ ∀ y ∈ log, y.2.error = none := by
  obtain ⟨htidy, ⟨texts, e, he⟩ | hok⟩ := h.tidy.traced hc (hashing_fits hσ) hS hi.traced fun y hy =>
    ⟨(logged_pending hf).admitted _ (hi.mem y hy), (logged_pending hf).project _ (hi.mem y hy)⟩
  · cases he
  · exact ⟨htidy, hok⟩

theorem Synced.change (hc : c.ParserFits) (hσ : σ.Admits (max dims 1)) (hS : S.Suits σ) (hx : Change c S x x')
    (h : x.Synced c dims σ S) : x'.Synced c dims σ S := by
  have hnamed := h.toNamed.change hx
  cases hx with
  | wait ms => exact ⟨hnamed, h.tidy, h.ordered, h.told⟩
  | clear project hm =>
    rw [needsMigration_hashing h.tidy h.floor] at hm
    cases hm
  | intake project force s files hf hs =>
    obtain ⟨log, hi⟩ := intake_spec (c := c) h.floor h.settings h.keyed.sane hs hf.nodup project force
    obtain ⟨htidy, hok⟩ := h.answered hc hσ hS hf hi
    exact ⟨hnamed, htidy, hi.reads.ordered h.ordered, h.told.taken h.toNamed hf hi hok⟩
  | forget project rels hrels =>
    refine ⟨hnamed, ?_, ordered_forgetAll h.ordered project rels, h.told.forget h.keyed fun rel hr => ?_⟩
    · rw [world_forgetAll]
      exact h.tidy.deleteFiles project rels
    · rcases hrels rel hr with hkey | hp
      · exact hkey
      · exact h.toNamed.paths hp

/-- A full run settles all files. -/
theorem Synced.settled_run (h : x.Synced c dims σ S) (hc : c.ParserFits) (hσ : σ.Admits (max dims 1)) (hS : S.Suits σ)
    {tree : FileTree} {project : Project} (hd : c.discover tree project.root = .ok files)
    (hf : S.Takes project.id files) (force : Bool) :
    ∃ x' s', x.indexRoot c tree project force = (x', .ok s') ∧ x'.Settled project.id files := by
  obtain ⟨x', s', hrun, -⟩ := h.toNamed.migrated_run hd hf force
  obtain ⟨y, t, log, hi, rfl, -⟩ := h.toNamed.indexRoot_ok hd hf hrun
  rw [migrated_of_unchanged (needsMigration_hashing h.tidy h.floor project.id)] at hi
  exact ⟨_, s', hrun, h.toNamed.settled hf hi (h.answered hc hσ hS hf hi).2⟩

end Indexer

end CodeIndex
