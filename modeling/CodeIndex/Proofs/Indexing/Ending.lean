import CodeIndex.Proofs.Indexing.Filing

/-!
What the ends of files leave in a store. A file without an error has its entry in the store; entries of files that
failed, or that did not end at all, stay as they were. Stores in order stay in order.
-/

namespace CodeIndex

open CodeIndex.Embedding

namespace Store

variable {s s' : Store}

theorem entries_putFile {f : FileEntry} (h : s.putFile f = .ok s') (hp : normalizePath f.path = f.path)
    (hkey : ∀ g ∈ s.entries, g.id = f.id ↔ g.project = f.project ∧ g.path = f.path) :
    s'.entries = withEntry f s.entries := by
  by_cases hh : s.settings.Holds f.size ∧ s.settings.Holds f.lineCount
  · obtain ⟨s₁, hput, he, -⟩ := putFile_ok hp hkey hh.1 hh.2
    rw [h] at hput
    cases hput
    exact he
  · cases s with
    | memory m => exact absurd ⟨nofun, nofun⟩ hh
    | table t =>
      exfalso
      apply hh
      cases hput : t.putFile f with
      | error e =>
        simp only [putFile, hput] at h
        cases h
      | ok t' =>
        simp only [TableStore.putFile, TableStore.column, bind, Except.bind] at hput
        split at hput
        · cases hput
        · rename_i hsize
          split at hput
          · cases hput
          · rename_i hlines
            split at hsize <;> split at hlines <;> simp_all [Settings.Holds]

end Store

theorem entries_putAll (s : Store) (rs : List Record) : (putAll s rs).1.entries = s.entries := by
  induction rs generalizing s with
  | nil => rfl
  | cons r rs ih =>
    unfold putAll
    split
    · rename_i s' h
      rw [ih, Store.entries_put h]
    · rfl

variable {c : IndexerConfig} {σ : Store.Settings} {k : Contract c.pipeline σ} {S : Scope} {s s' : Store}
  {m : FileEntry} {p : Prepared} {o : Outcome} {project : String} {log : List (Prepared × Outcome)}

theorem entries_persist_error {file : FileEntry} {rs : List Record} {e : StoreError}
    (h : persist s file rs = (s', .error e)) : s'.entries = s.entries := by
  have hall := entries_putAll (s.deleteRecords file.id).1 rs
  rw [Store.entries_deleteRecords] at hall
  unfold persist at h
  split at h <;> rename_i he <;> rw [he] at hall
  · cases h
    exact hall
  · split at h <;> cases h
    exact hall

/-- Records may be lost on the way, but an entry is put only after all of them. -/
theorem entries_persist {rs : List Record} {r : Except StoreError Unit} (h : persist s p.file rs = (s', r))
    (hs : s.Keyed S) (hp : S.Admits c p) :
    (r = .ok () → s'.entries = Store.withEntry p.file s.entries) ∧ (r ≠ .ok () → s'.entries = s.entries) := by
  cases r with
  | error e => exact ⟨nofun, fun _ => entries_persist_error h⟩
  | ok u =>
    refine ⟨fun _ => ?_, fun hne => absurd rfl hne⟩
    have hall := entries_putAll (s.deleteRecords p.file.id).1 rs
    rw [Store.entries_deleteRecords] at hall
    unfold persist at h
    split at h
    · cases h
    · rename_i s₁ he
      rw [he] at hall
      split at h
      · rename_i s₂ hput
        cases h
        rw [Store.entries_putFile hput hp.normal fun g hg => hs.id_eq_iff (hall ▸ hg) hp, hall]
      · cases h

theorem exists_of_no_errors {results : List (Except IndexError Embedded)}
    (h : (results.filterMap fun
      | .error e => some e
      | .ok _ => none) = []) : ∃ embedded : List Embedded, results = embedded.map .ok := by
  induction results with
  | nil => exact ⟨[], rfl⟩
  | cons r results ih =>
    cases r with
    | error e => cases h
    | ok e =>
      obtain ⟨embedded, he⟩ := ih h
      exact ⟨e :: embedded, by rw [he]; rfl⟩

theorem mem_of_errors {results : List (Except IndexError Embedded)} {e : IndexError} {rest : List IndexError}
    (h : (results.filterMap fun
      | .error e => some e
      | .ok _ => none) = e :: rest) : .error e ∈ results := by
  obtain ⟨r, hr, he⟩ := List.mem_filterMap.1 (h ▸ List.mem_cons_self)
  cases r with
  | error _ =>
    cases he
    exact hr
  | ok _ => cases he

theorem filterMap_toOption_ok (embedded : List Embedded) :
    (embedded.map Except.ok).filterMap (Except.toOption (ε := IndexError)) = embedded := by
  rw [List.filterMap_map]
  exact List.filterMap_some

theorem Embedding.Prepared.records_eq (hproject : p.file.project = project) (embedded : List Embedded) :
    (Job.ofPrepared c.pipeline 0 p).records project embedded = p.records c.pipeline embedded := by
  rw [← hproject]
  rfl

/-- Nothing is written after a failed batch; after none the records are replaced as far as the store lets them in. -/
theorem finish_cases {j : Job} {results : List (Except IndexError Embedded)}
    (h : j.finish project s results = (s', o)) :
    o.path = j.file.path ∧
      ((s' = s ∧ o.failedBatches ≠ 0 ∧ ∃ e, o.error = some e ∧ .error e ∈ results) ∨
        o.failedBatches = 0 ∧ ∃ embedded r, results = embedded.map .ok ∧
          persist s j.file (j.records project embedded) = (s', r) ∧ (o.error = none ↔ r = .ok ())) := by
  unfold Job.finish at h
  dsimp only at h
  split at h
  · rename_i e rest he
    cases h
    exact ⟨rfl, .inl ⟨rfl, by simp [he], e, rfl, mem_of_errors he⟩⟩
  · rename_i he
    obtain ⟨embedded, rfl⟩ := exists_of_no_errors he
    rw [filterMap_toOption_ok] at h
    split at h
    · rename_i s₁ e hpersist
      cases h
      exact ⟨rfl, .inr ⟨rfl, embedded, .error e, rfl, hpersist, nofun, nofun⟩⟩
    · rename_i s₁ hpersist
      cases h
      exact ⟨rfl, .inr ⟨rfl, embedded, .ok (), rfl, hpersist, fun _ => rfl, fun _ => rfl⟩⟩

/-- A file ends with a failed batch, and nothing is written, or its records are replaced. -/
theorem ends_cases (h : p.Ends k project s s' o) (hproject : p.file.project = project) :
    o.path = p.file.path ∧
      ((s' = s ∧ (∃ e, o.error = some e) ∧ ∃ texts e, k.answer texts (.error e)) ∨
        ∃ embedded r, k.Answers p embedded ∧ persist s p.file (p.records c.pipeline embedded) = (s', r) ∧
          (o.error = none ↔ r = .ok ())) := by
  obtain ⟨results, ha, hf⟩ := h
  obtain ⟨hpath, ⟨hs, -, e, he, hmem⟩ | ⟨-, embedded, r, rfl, hpersist, hr⟩⟩ := finish_cases hf
  · obtain ⟨i, hi, hget⟩ := List.getElem_of_mem hmem
    have hi' := (List.forall₂_iff_get.1 ha).2 i (ha.length_eq ▸ hi) hi
    rw [List.get_eq_getElem, List.get_eq_getElem, hget] at hi'
    exact ⟨hpath, .inl ⟨hs, ⟨e, he⟩, _, e, hi'⟩⟩
  · have hanswers : k.Answers p embedded := List.forall₂_map_right_iff.1 ha
    rw [Prepared.records_eq hproject] at hpersist
    exact ⟨hpath, .inr ⟨embedded, r, hanswers, hpersist, hr⟩⟩

theorem Store.Keyed.ended (hs : s.Keyed S) (h : p.Ends k project s s' o) (hp : S.Admits c p)
    (hproject : p.file.project = project) :
    s'.Keyed S ∧ (o.error = none → s'.entries = Store.withEntry p.file s.entries) ∧
      (o.error ≠ none → s'.entries = s.entries) := by
  obtain ⟨-, ⟨rfl, ⟨e, he⟩, -⟩ | ⟨embedded, r, -, hpersist, hr⟩⟩ := ends_cases h hproject
  · exact ⟨hs, fun hn => absurd (he.symm.trans hn) nofun, fun _ => rfl⟩
  · obtain ⟨hok, herror⟩ := entries_persist hpersist hs hp
    have hsane : s'.Sane := by
      have := (keeps_persist s p.file (p.records c.pipeline embedded)).sane hs.sane
      rwa [hpersist] at this
    refine ⟨?_, fun hn => hok (hr.1 hn), fun hn => herror fun he => hn (hr.2 he)⟩
    by_cases hn : r = .ok ()
    · exact hs.withEntry hp hsane (hok hn)
    · have he := herror hn
      exact ⟨hsane, he ▸ hs.ids, he ▸ hs.keyed⟩

/-- Files of a project that are admitted, none of them twice. -/
structure Scope.Logged (S : Scope) (c : IndexerConfig) (project : String) (files : List Prepared) : Prop where
  admitted : ∀ p ∈ files, S.Admits c p
  project : ∀ p ∈ files, p.file.project = project
  nodup : (files.map (·.file.id)).Nodup

theorem Scope.Logged.perm {files files' : List Prepared} (h : S.Logged c project files) (hp : files'.Perm files) :
    S.Logged c project files' :=
  ⟨fun p hm => h.admitted p (hp.mem_iff.1 hm), fun p hm => h.project p (hp.mem_iff.1 hm),
    (hp.map (·.file.id)).nodup_iff.2 h.nodup⟩

theorem Scope.Logged.of_append {files files' : List Prepared} (h : S.Logged c project (files ++ files')) :
    S.Logged c project files :=
  ⟨fun p hm => h.admitted p (List.mem_append_left _ hm), fun p hm => h.project p (List.mem_append_left _ hm),
    h.nodup.sublist ((List.sublist_append_left ..).map _)⟩

/-- The entries after some files ended: those of the files without an error, and all others as they were. -/
def Registered (entries : List FileEntry) (log : List (Prepared × Outcome)) (m : FileEntry) : Prop :=
  (∃ x ∈ log, x.2.error = none ∧ x.1.file = m) ∨
    (m ∈ entries ∧ ∀ x ∈ log, x.2.error = none → x.1.file.id ≠ m.id)

theorem registered_append_error {entries : List FileEntry} (hn : o.error ≠ none) :
    Registered entries (log ++ [(p, o)]) m ↔ Registered entries log m := by
  refine or_congr ?_ (and_congr_right fun _ => ?_)
  · simp [or_and_right, exists_or, hn]
  · rw [List.forall_mem_append, List.forall_mem_singleton]
    exact and_iff_left fun he => absurd he hn

/-- No file ended before under the identifier of this one. -/
theorem registered_append_ok {entries : List FileEntry} (hn : o.error = none)
    (hnew : ∀ x ∈ log, x.1.file.id ≠ p.file.id) :
    Registered entries (log ++ [(p, o)]) m ↔ m = p.file ∨ Registered entries log m ∧ m.id ≠ p.file.id := by
  constructor
  · rintro (⟨x, hx, hxe, rfl⟩ | ⟨hm, hall⟩)
    · rcases List.mem_append.1 hx with hx | hx
      · exact .inr ⟨.inl ⟨x, hx, hxe, rfl⟩, hnew x hx⟩
      · rw [List.mem_singleton.1 hx]
        exact .inl rfl
    · obtain ⟨hall, hlast⟩ := List.forall_mem_append.1 hall
      exact .inr ⟨.inr ⟨hm, hall⟩, (hlast _ List.mem_cons_self hn).symm⟩
  · rintro (rfl | ⟨⟨x, hx, hxe, rfl⟩ | ⟨hm, hall⟩, hne⟩)
    · exact .inl ⟨(p, o), List.mem_append_right _ List.mem_cons_self, hn, rfl⟩
    · exact .inl ⟨x, List.mem_append_left _ hx, hxe, rfl⟩
    · exact .inr ⟨hm, List.forall_mem_append.2 ⟨hall, List.forall_mem_singleton.2 fun _ => hne.symm⟩⟩

theorem Scope.Logged.not_before (h : S.Logged c project ((log ++ [(p, o)]).map (·.1))) :
    ∀ x ∈ log, x.1.file.id ≠ p.file.id := by
  intro x hx he
  have hnodup := h.nodup
  rw [List.map_append, List.map_append, List.nodup_append] at hnodup
  exact hnodup.2.2 _ (List.mem_map_of_mem (List.mem_map_of_mem hx)) _ (by simp) he

theorem Store.Keyed.traced (hs : s.Keyed S) (h : Traced k project s log s') (hl : S.Logged c project (log.map (·.1))) :
    s'.Keyed S ∧ (∀ x ∈ log, x.2.path = x.1.file.path) ∧ ∀ m, m ∈ s'.entries ↔ Registered s.entries log m := by
  induction h with
  | start => exact ⟨hs, nofun, fun m => by simp [Registered]⟩
  | widen _ hw ih =>
    obtain ⟨hkeyed, hpaths, hmem⟩ := ih hl
    obtain ⟨-, he, hkeeps⟩ := Store.widenings_spec hw hkeyed.sane
    exact ⟨⟨hkeeps.sane hkeyed.sane, he ▸ hkeyed.ids, he ▸ hkeyed.keyed⟩, hpaths, fun m => by rw [he, hmem]⟩
  | @ended log s₁ s₂ p o _ hend ih =>
    have hnew := hl.not_before
    rw [List.map_append] at hl
    obtain ⟨hkeyed, hpaths, hmem⟩ := ih hl.of_append
    have hm : p ∈ log.map (·.1) ++ [(p, o)].map (·.1) := List.mem_append_right _ List.mem_cons_self
    have hproject := hl.project p hm
    obtain ⟨hkeyed', hok, herror⟩ := hkeyed.ended hend (hl.admitted p hm) hproject
    refine ⟨hkeyed', List.forall_mem_append.2 ⟨hpaths, List.forall_mem_singleton.2 (ends_cases hend hproject).1⟩,
      fun m => ?_⟩
    by_cases hn : o.error = none
    · rw [hok hn, mem_withEntry hkeyed, hmem, registered_append_ok hn hnew]
    · rw [herror hn, hmem, registered_append_error hn]

/-- Files end without an error if batches do, and leave a store in order in any case. -/
theorem Store.Tidy.ended (hs : s.Tidy k S) (hc : c.ParserFits) (hk : k.Fits) (hS : S.Suits σ)
    (h : p.Ends k project s s' o) (hp : S.Admits c p) (hproject : p.file.project = project) :
    s'.Tidy k S ∧ ((∃ texts e, k.answer texts (.error e)) ∨ o.error = none) := by
  obtain ⟨-, ⟨rfl, -, he⟩ | ⟨embedded, r, ha, hpersist, hr⟩⟩ := ends_cases h hproject
  · exact ⟨hs, .inl he⟩
  · obtain ⟨s₁, hok, hentries, hrows, hkeeps⟩ := persist_ok hc hk hS hs hp ha
    rw [hpersist] at hok
    cases hok
    exact ⟨hs.persisted hc hk hp ha hentries hrows hkeeps, .inr (hr.2 rfl)⟩

theorem Store.Tidy.traced (hs : s.Tidy k S) (hc : c.ParserFits) (hk : k.Fits) (hS : S.Suits σ)
    (h : Traced k project s log s') (hp : ∀ x ∈ log, S.Admits c x.1 ∧ x.1.file.project = project) :
    s'.Tidy k S ∧ ((∃ texts e, k.answer texts (.error e)) ∨ ∀ x ∈ log, x.2.error = none) := by
  induction h with
  | start => exact ⟨hs, .inr nofun⟩
  | widen _ hw ih => exact ⟨(ih hp).1.widened hw, (ih hp).2⟩
  | ended _ hend ih =>
    obtain ⟨htidy, hall⟩ := ih fun x hx => hp x (List.mem_append_left _ hx)
    obtain ⟨hadm, hproject⟩ := hp _ (List.mem_append_right _ List.mem_cons_self)
    obtain ⟨htidy', hone⟩ := htidy.ended hc hk hS hend hadm hproject
    refine ⟨htidy', ?_⟩
    rcases hall with hall | hall
    · exact .inl hall
    · rcases hone with hone | hone
      · exact .inl hone
      · refine .inr fun x hx => ?_
        rcases List.mem_append.1 hx with hx | hx
        · exact hall x hx
        · rw [List.mem_singleton.1 hx]
          exact hone

end CodeIndex
