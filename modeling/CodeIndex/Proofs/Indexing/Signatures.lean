import CodeIndex.Proofs.Indexing.Ledger

/-!
What models the records of a project were made with. A run clears a project with records of another model than the
active one before it begins, but its own records have the model of whichever provider answers: two files of one run may
well be embedded by two providers. Such a mixture is found out when the next run begins, and that one starts afresh.
-/

namespace CodeIndex

open CodeIndex.Embedding Files

/-- A record by a provider of the chain. Its vector may have another length than the provider's own. -/
def Record.By (chain : List Signature) (r : Record) : Prop :=
  ∃ s ∈ chain, r.signature = { s with dimensions := r.vector.size }

namespace Indexer

variable {c : IndexerConfig} {x x' : Indexer} {chain : List Signature} {σ : Store.Settings} {force : Bool}
  {tree : FileTree} {path project : String} {s : Session} {files : List Discovered} {ws : List (Prepared × List Record)}
  {gone : List String} {r : Record}

/-- A record that was written has the model of a provider of the chain. -/
theorem Rewritten.by_chain (h : x.Rewritten c chain project files force ws gone x') (hr : r ∈ written ws) :
    r.By chain := by
  obtain ⟨w, -, embedded, ha, hr⟩ := h.mem_written hr
  obtain ⟨chunk, -, texts, e, he, vector, hv, rfl⟩ := mem_jobRecords ha hr
  have hanswered := he e rfl
  obtain ⟨s, hs, hsame, -⟩ := hanswered.source
  have hsize := hanswered.size vector hv
  refine ⟨s, hs, ?_⟩
  change (⟨e.signature.provider, vector.size, e.signature.format⟩ : Signature) = { s with dimensions := vector.size }
  rw [hsize, hsame]

/-- A migration leaves nothing of the project. -/
theorem project_ne_of_migrated (hm : x.world.needsMigration project = true)
    (hr : r ∈ (x.migrated project).world.store.rows) : r.project ≠ project := by
  unfold Indexer.migrated at hr
  rw [if_pos hm, rows_cleared] at hr
  exact bne_iff_ne.1 (List.mem_filter.1 hr).2

/-- Records that stay for a run have the active model, if there is one. -/
theorem rows_kept_active (hr : r ∈ (x.migrated project).world.store.rows) (hp : r.project = project) :
    r ∈ x.world.store.rows ∧ ∀ current, x.world.activeSignature = some current → r.signature = current := by
  have hold := rows_migrated x project r hr
  refine ⟨hold, fun current hactive => ?_⟩
  by_contra hne
  exact project_ne_of_migrated (needsMigration_iff.2 ⟨current, hactive, r, hold, hp, hne⟩) hr hp

/-- Each record of a project after a run was there before and has the active model, or the run wrote it in the model of
a provider. -/
theorem Rewritten.sources (h : x.Rewritten c chain project files force ws gone x') (hr : r ∈ x'.world.store.rows)
    (hp : r.project = project) :
    (r ∈ x.world.store.rows ∧ ∀ current, x.world.activeSignature = some current → r.signature = current) ∨
      (r ∈ written ws ∧ r.By chain) := by
  rcases h.source hr with hr | hr
  · exact .inl (rows_kept_active hr hp)
  · exact .inr ⟨hr, h.by_chain hr⟩

/-- A run over a project with records of two models migrates if a provider is available, and leaves its own records
only. -/
theorem Steady.mixed_run (h : x.Steady chain σ) {project : Project} {q : Record} (hr : r ∈ x.world.store.rows)
    (hq : q ∈ x.world.store.rows) (hrp : r.project = project.id) (hqp : q.project = project.id)
    (hne : r.signature ≠ q.signature) (hactive : x.world.activeSignature ≠ none)
    (hp : c.identifyProject tree path = .ok project) (hrun : x.indexProject c tree path force = (x', .ok s)) :
    s.migrated = true ∧ ∃ files ws gone, c.discover tree project.root = .ok files ∧
      x.Rewritten c chain project.id files force ws gone x' ∧
      ∀ t ∈ x'.world.store.rows, t.project = project.id → t ∈ written ws := by
  obtain ⟨current, hcurrent⟩ := Option.ne_none_iff_exists'.1 hactive
  -- one of the two has another model than the active one
  have hm : x.world.needsMigration project.id = true := by
    rw [needsMigration_iff]
    by_cases hrc : r.signature = current
    · exact ⟨current, hcurrent, q, hq, hqp, fun hqc => hne (hrc.trans hqc.symm)⟩
    · exact ⟨current, hcurrent, r, hr, hrp, hrc⟩
  obtain ⟨project', files, hp', hd⟩ := indexProject_ok hrun
  rw [hp] at hp'
  cases hp'
  rw [indexProject_eq hp] at hrun
  obtain ⟨-, hmigrated, -, ws, gone, hrewritten, -⟩ := h.indexRoot_spec hd hrun
  exact ⟨hmigrated.trans hm, files, ws, gone, hd, hrewritten, fun t ht htp =>
    (hrewritten.source ht).resolve_left fun hold => project_ne_of_migrated hm hold htp⟩

end Indexer

/-- In every state that can be reached, and whatever providers answer: each record of the project after a full run that
ends well was there before, and then it has the model that was active as the run began, or the run wrote it, and then it
has the model of a provider of the chain. So there is one model only if all that the run wrote has the active one. If
there are two, the next run that finds a provider available migrates, and no record is left but its own. -/
theorem run_signatures (s₀ : Store) (c : IndexerConfig) (x : Indexer) (hx : Indexer.Reachable s₀ c x)
    (hentries : s₀.entries = []) (hsane : s₀.Sane) (tree : FileTree) (path : String) (force : Bool) (x' : Indexer)
    (s : Session) (hrun : x.indexProject c tree path force = (x', .ok s)) :
    let chain := x.world.providers.map Provider.signature
    ∃ project files ws gone, c.identifyProject tree path = .ok project ∧ c.discover tree project.root = .ok files ∧
      x.Rewritten c chain project.id files force ws gone x' ∧
      (∀ r ∈ x'.world.store.rows, r.project = project.id →
        (r ∈ x.world.store.rows ∧ ∀ current, x.world.activeSignature = some current → r.signature = current) ∨
          (r ∈ written ws ∧ r.By chain)) ∧
      (∀ current, x.world.activeSignature = some current → (∀ r ∈ written ws, r.signature = current) →
        ∀ r ∈ x'.world.store.rows, r.project = project.id → r.signature = current) ∧
      ∀ r ∈ x'.world.store.rows, ∀ q ∈ x'.world.store.rows, r.project = project.id → q.project = project.id →
        r.signature ≠ q.signature → x'.world.activeSignature ≠ none →
          ∀ tree' path' force' project' x'' s'', c.identifyProject tree' path' = .ok project' →
            project'.id = project.id → x'.indexProject c tree' path' force' = (x'', .ok s'') →
              s''.migrated = true ∧ ∃ files' ws' gone', c.discover tree' project'.root = .ok files' ∧
                x'.Rewritten c chain project.id files' force' ws' gone' x'' ∧
                ∀ t ∈ x''.world.store.rows, t.project = project.id → t ∈ written ws' := by
  intro chain
  have hsteady := hx.steady hsane (Store.identified_empty hentries)
  have hafter := hsteady.indexProject (c := c) tree path force
  rw [hrun] at hafter
  obtain ⟨project, files, hp, hd⟩ := Indexer.indexProject_ok hrun
  rw [Indexer.indexProject_eq hp] at hrun
  obtain ⟨-, -, -, ws, gone, hrewritten, -⟩ := hsteady.indexRoot_spec hd hrun
  refine ⟨project, files, ws, gone, hp, hd, hrewritten, fun r => hrewritten.sources,
    fun current hactive hall r hr hproject => ?_, ?_⟩
  · rcases hrewritten.sources hr hproject with ⟨-, hkept⟩ | ⟨hwritten, -⟩
    · exact hkept current hactive
    · exact hall r hwritten
  · intro r hr q hq hrp hqp hne hactive tree' path' force' project' x'' s'' hp' hid
    rw [← hid] at hrp hqp ⊢
    exact hafter.mixed_run hr hq hrp hqp hne hactive hp'

/-- A tree of one file with two lines. -/
def linedFile : FileTree := .dir [("a.md", .file "a\nb".toUTF8)]

def linedDiscovered : Discovered := ⟨"/a.md", "a.md", "a\nb".toUTF8, {}⟩

/-- A process that embeds each line on its own. -/
def linewise : Process where
  config := { plainConfig with
    pipeline := { Config.defaultEmbedding with batchSize := 1, maxChunkSize := 1, overlapLines := 0 } }
  health := failingFirst.health
  providers := failingFirst.providers
  ops := []

theorem identify_linedFile : linewise.config.identifyProject linedFile "/" = .ok oneProject :=
  identify_root (by decide +kernel)

theorem discover_linedFile : linewise.config.discover linedFile oneProject.root = .ok [linedDiscovered] := by
  decide +kernel

/-- The provider that failed for the first line is back for the second. -/
theorem ends_linewise :
    ((linewise.begin (.memory {})).ends? linewise.config 10 oneProject.id [linedDiscovered]).map (fun y =>
        (y.2.errors, y.1.world.activeSignature.isSome,
          y.1.world.store.rows.map fun r => (r.project, r.signature.dimensions))) =
      some ([], true, [(oneProject.id, 8), (oneProject.id, 4)]) := by decide +kernel

theorem indexProject_linewise :
    ∃ x' s r q, (linewise.begin (.memory {})).indexProject linewise.config linedFile "/" false = (x', .ok s) ∧
      s.errors = [] ∧ x'.world.activeSignature ≠ none ∧ (r ∈ x'.world.store.rows ∧ r.project = oneProject.id) ∧
      (q ∈ x'.world.store.rows ∧ q.project = oneProject.id) ∧ r.signature ≠ q.signature := by
  obtain ⟨⟨x', s⟩, hends, he⟩ := Option.map_eq_some_iff.1 ends_linewise
  simp only [Prod.mk.injEq] at he
  obtain ⟨herrors, hactive, hrows⟩ := he
  have hrow : ∀ dimensions ∈ [8, 4], ∃ r ∈ x'.world.store.rows,
      r.project = oneProject.id ∧ r.signature.dimensions = dimensions := by
    intro dimensions hd
    have hmem : (oneProject.id, dimensions) ∈ x'.world.store.rows.map fun r => (r.project, r.signature.dimensions) := by
      rw [hrows]
      simpa using hd
    obtain ⟨r, hr, he⟩ := List.mem_map.1 hmem
    exact ⟨r, hr, Prod.mk.inj he⟩
  obtain ⟨r, hr, hrp, hrd⟩ := hrow 8 (by decide)
  obtain ⟨q, hq, hqp, hqd⟩ := hrow 4 (by decide)
  have hne : r.signature ≠ q.signature := by
    intro hsame
    rw [hsame, hqd] at hrd
    cases hrd
  have hrun := Indexer.indexProject_of_ends identify_linedFile discover_linedFile rfl hends
  exact ⟨x', s, r, q, hrun, herrors, Option.isSome_iff_ne_none.1 hactive, ⟨hr, hrp⟩, ⟨hq, hqp⟩, hne⟩

/-- A run without errors may leave records of two models, of one file even. -/
theorem run_signatures_mixed :
    ¬∀ (s₀ : Store) (c : IndexerConfig) (x : Indexer), Indexer.Reachable s₀ c x → s₀.entries = [] → s₀.Sane →
      ∀ tree path force x' s, x.indexProject c tree path force = (x', .ok s) → s.errors = [] →
        ∀ project, c.identifyProject tree path = .ok project →
          ∀ r ∈ x'.world.store.rows, ∀ q ∈ x'.world.store.rows, r.project = project.id → q.project = project.id →
            r.signature = q.signature := by
  intro h
  obtain ⟨x', s, r, q, hrun, herrors, -, ⟨hr, hrp⟩, ⟨hq, hqp⟩, hne⟩ := indexProject_linewise
  exact hne (h (.memory {}) _ _ (.begin linewise (by decide)) rfl trivial linedFile "/" false x' s hrun herrors
    oneProject identify_linedFile r hr q hq hrp hqp)

/-- The run after such a run migrates, and all records are its own then. -/
theorem run_signatures_linedFile :
    ∃ x' s x'' s'', (linewise.begin (.memory {})).indexProject linewise.config linedFile "/" false = (x', .ok s) ∧
      x'.indexProject linewise.config linedFile "/" false = (x'', .ok s'') ∧ s''.migrated = true ∧
        ∃ ws, (∃ gone, x'.Rewritten linewise.config (linewise.providers.map Provider.signature) oneProject.id
          [linedDiscovered] false ws gone x'') ∧
          ∀ t ∈ x''.world.store.rows, t.project = oneProject.id → t ∈ written ws := by
  obtain ⟨x', s, r, q, hrun, -, hactive, ⟨hr, hrp⟩, ⟨hq, hqp⟩, hne⟩ := indexProject_linewise
  obtain ⟨project, files, ws, gone, hp, -, -, -, -, hmixed⟩ := run_signatures (.memory {}) linewise.config _
    (.begin linewise (by decide)) rfl trivial linedFile "/" false x' s hrun
  rw [identify_linedFile] at hp
  cases hp
  obtain ⟨x'', s'', hnext⟩ : ∃ x'' s'', x'.indexProject linewise.config linedFile "/" false = (x'', .ok s'') := by
    rw [Indexer.indexProject_eq identify_linedFile, Indexer.indexRoot_eq x' false discover_linedFile]
    exact ⟨_, _, rfl⟩
  obtain ⟨hmigrated, files', ws', gone', hd, hrewritten, hown⟩ :=
    hmixed r hr q hq hrp hqp hne hactive linedFile "/" false oneProject x'' s'' identify_linedFile rfl hnext
  rw [discover_linedFile] at hd
  cases hd
  exact ⟨x', s, x'', s'', hrun, hnext, hmigrated, ws', ⟨gone', hrewritten⟩, hown⟩

end CodeIndex
