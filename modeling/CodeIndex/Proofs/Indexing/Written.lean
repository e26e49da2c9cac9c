import CodeIndex.Proofs.Indexing.Process
import Mathlib.Data.List.Perm.Subperm

/-!
The records that a run writes. A file that was embedded gives up the records it had for those that the store takes of
its new ones, and what the store holds in the end is what it held, rewritten in this way file by file. If the store takes
all records of the files, as many were written as the outcomes tell.
-/

namespace CodeIndex.Embedding

variable {c : PipelineConfig} {σ : Store.Settings} {k : Contract c σ} {project : String} {files : List Prepared}
  {p : Prepared} {o : Outcome} {s s' : Store} {log : List (Prepared × Outcome)} {rows rs : List Record} {q r : Record}
  {ws : List (Prepared × List Record)}

/-- Records after those of some files were rewritten, one file after the other. -/
def rewrittenAll (rows : List Record) (ws : List (Prepared × List Record)) : List Record :=
  ws.foldl (fun rows w => rewritten rows w.1.file.id w.2) rows

/-- All records that were written for some files. -/
def written (ws : List (Prepared × List Record)) : List Record := ws.flatMap (·.2)

theorem rewrittenAll_concat (rows : List Record) (ws : List (Prepared × List Record)) (w : Prepared × List Record) :
    rewrittenAll rows (ws ++ [w]) = rewritten (rewrittenAll rows ws) w.1.file.id w.2 := by
  rw [rewrittenAll, List.foldl_append]
  rfl

theorem written_concat (ws : List (Prepared × List Record)) (w : Prepared × List Record) :
    written (ws ++ [w]) = written ws ++ w.2 := by
  simp [written]

/-- What is held after files were rewritten was held before, or it was written. -/
theorem of_mem_rewrittenAll (h : q ∈ rewrittenAll rows ws) : q ∈ rows ∨ q ∈ written ws := by
  induction ws using List.reverseRecOn with
  | nil => exact .inl h
  | append_singleton ws w ih =>
    rw [rewrittenAll_concat] at h
    rw [written_concat, List.mem_append]
    rcases of_mem_rewritten h with h | h
    · exact (ih h).imp_right .inl
    · exact .inr (.inr h)

/-- A record stays if no other is put under its identifier. -/
theorem mem_foldl_withRecord (h : q ∈ rows) (hid : ∀ r ∈ rs, r.id ≠ q.id) : q ∈ rs.foldl withRecord rows := by
  induction rs generalizing rows with
  | nil => exact h
  | cons r rs ih =>
    obtain ⟨hr, hid⟩ := List.forall_mem_cons.1 hid
    exact ih (mem_withRecord.2 (.inl ⟨h, hr.symm⟩)) hid

/-- Records with identifiers of their own are all there once they were put. -/
theorem mem_foldl_withRecord_self (hn : (rs.map (·.id)).Nodup) (h : q ∈ rs) : q ∈ rs.foldl withRecord rows := by
  induction rs generalizing rows with
  | nil => cases h
  | cons r rs ih =>
    obtain ⟨hr, hn⟩ := List.nodup_cons.1 hn
    rcases List.mem_cons.1 h with rfl | h
    · have hput : q ∈ withRecord rows q := mem_withRecord.2 (.inr rfl)
      have hkept := mem_foldl_withRecord hput fun r hm he => hr (List.mem_map.2 ⟨r, hm, he⟩)
      exact hkept
    · exact ih hn h

/-- What was written is there afterwards, if no two files and no two records share an identifier. -/
theorem mem_rewrittenAll (hids : ((written ws).map (·.id)).Nodup) (hfiles : (ws.map (·.1.file.id)).Nodup)
    (hown : ∀ w ∈ ws, ∀ r ∈ w.2, r.fileId = w.1.file.id) (h : q ∈ written ws) : q ∈ rewrittenAll rows ws := by
  induction ws using List.reverseRecOn with
  | nil => cases h
  | append_singleton ws w ih =>
    rw [written_concat, List.map_append, List.nodup_append] at hids
    rw [List.map_append, List.nodup_append] at hfiles
    obtain ⟨hids, hlast, hapart⟩ := hids
    obtain ⟨hfiles, -, hnew⟩ := hfiles
    obtain ⟨hown, -⟩ := List.forall_mem_append.1 hown
    rw [written_concat, List.mem_append] at h
    rw [rewrittenAll_concat, rewritten]
    rcases h with h | h
    · -- another file is rewritten, with other records
      refine mem_foldl_withRecord (List.mem_filter.2 ⟨ih hids hfiles hown h, bne_iff_ne.2 fun he => ?_⟩)
        fun r hr he => ?_
      · obtain ⟨v, hv, hq⟩ := List.mem_flatMap.1 h
        exact hnew _ (List.mem_map_of_mem hv) _ (List.mem_singleton.2 rfl) ((hown v hv q hq).symm.trans he)
      · exact hapart _ (List.mem_map_of_mem h) _ (List.mem_map_of_mem hr) he.symm
    · exact mem_foldl_withRecord_self hlast h

/-- What files wrote on the way from one store to another. None of them did so twice, and what it wrote are the first of
its records, or all of them, in vectors that its batches were answered with. -/
structure Wrote (k : Contract c σ) (project : String) (files : List Prepared) (s : Store)
    (ws : List (Prepared × List Record)) (s' : Store) : Prop where
  rows : ∀ q, q ∈ s'.rows ↔ q ∈ rewrittenAll s.rows ws
  files : (ws.map (·.1)).Subperm files
  made : ∀ w ∈ ws, ∃ embedded, k.Answers w.1 embedded ∧ w.2 <+: (Job.ofPrepared c 0 w.1).records project embedded

theorem fileId_of_mem_records {embedded : List Embedded} (h : r ∈ (Job.ofPrepared c 0 p).records project embedded) :
    r.fileId = p.file.id := by
  obtain ⟨x, -, rfl⟩ := List.mem_map.1 h
  rfl

/-- What a file wrote is its own. -/
theorem Wrote.own (h : Wrote k project files s ws s') : ∀ w ∈ ws, ∀ r ∈ w.2, r.fileId = w.1.file.id := by
  intro w hw r hr
  obtain ⟨embedded, -, htaken⟩ := h.made w hw
  exact fileId_of_mem_records (htaken.subset hr)

theorem Wrote.nil (k : Contract c σ) (project : String) (files : List Prepared) (hrows : s'.rows = s.rows) :
    Wrote k project files s [] s' :=
  ⟨fun q => by rw [hrows]; exact Iff.rfl, List.nil_subperm, nofun⟩

theorem Wrote.congr {s'' : Store} (h : Wrote k project files s ws s') (hrows : s''.rows = s'.rows) :
    Wrote k project files s ws s'' :=
  ⟨fun q => hrows ▸ h.rows q, h.files, h.made⟩

/-- The sum of a count over the files without an error. -/
def credit (count : Outcome → Nat) (outcomes : List Outcome) : Nat :=
  total ((outcomes.filter (·.error.isNone)).map count)

@[simp] theorem credit_nil (count : Outcome → Nat) : credit count [] = 0 := rfl

@[simp] theorem credit_append (count : Outcome → Nat) (old new : List Outcome) :
    credit count (old ++ new) = credit count old + credit count new := by
  simp [credit]

theorem credit_error (count : Outcome → Nat) (h : o.error ≠ none) : credit count [o] = 0 := by
  cases he : o.error with
  | none => exact absurd he h
  | some e => simp [credit, he]

theorem credit_good (count : Outcome → Nat) (h : o.error = none) : credit count [o] = count o := by
  simp [credit, h]

/-- Outcomes that tell of just the files that were written, and of as many chunks and embeddings as records. -/
structure Booked (outcomes : List Outcome) (ws : List (Prepared × List Record)) : Prop where
  files : credit (fun _ => 1) outcomes = ws.length
  chunks : credit (·.chunks) outcomes = (written ws).length
  embedded : credit (·.embedded) outcomes = (written ws).length

theorem Booked.failed {outcomes : List Outcome} (h : Booked outcomes ws) (ho : o.error ≠ none) :
    Booked (outcomes ++ [o]) ws := by
  constructor <;> rw [credit_append, credit_error _ ho, Nat.add_zero]
  · exact h.files
  · exact h.chunks
  · exact h.embedded

theorem Booked.wrote {outcomes : List Outcome} (h : Booked outcomes ws) (ho : o.error = none)
    (hchunks : o.chunks = rs.length) (hembedded : o.embedded = rs.length) :
    Booked (outcomes ++ [o]) (ws ++ [(p, rs)]) := by
  constructor <;> rw [credit_append, credit_good _ ho]
  · rw [h.files, List.length_append, List.length_singleton]
  · rw [h.chunks, hchunks, written_concat, List.length_append]
  · rw [h.embedded, hembedded, written_concat, List.length_append]

/-- However the files may bring the store along, it takes all records of each of them. -/
def Welcome (k : Contract c σ) (project : String) (files : List Prepared) (s : Store) : Prop :=
  ∀ log s', Traced k project s log s' → (∀ x ∈ log, x.1 ∈ files) → ∀ p ∈ files, ∀ embedded, k.Answers p embedded →
    ∃ s'', persist s' p.file ((Job.ofPrepared c 0 p).records project embedded) = (s'', .ok ())

/-- A file whose records were taken tells of all of them. -/
theorem finish_embedded {j : Job} {embedded : List Embedded}
    (h : persist s j.file (j.records project embedded) = (s', .ok ())) :
    (j.finish project s (embedded.map .ok)).2.chunks = j.chunks.length ∧
      (j.finish project s (embedded.map .ok)).2.embedded = (j.records project embedded).length := by
  unfold Job.finish
  dsimp only
  split
  · rename_i e rest he
    obtain ⟨_, -, hcase⟩ := List.mem_map.1 (mem_of_errors he)
    cases hcase
  · rw [filterMap_toOption_ok, h]
    exact ⟨rfl, rfl⟩

/-- Files that end write their records, and nothing else comes into the store. If it takes all records of the files, the
outcomes tell of what was written. -/
theorem Traced.wrote (h : Traced k project s log s') (hs : s.Sane) :
    ∃ ws, Wrote k project (log.map (·.1)) s ws s' ∧
      (k.Fits → ∀ files, Welcome k project files s → (∀ x ∈ log, x.1 ∈ files) → Booked (log.map (·.2)) ws) := by
  induction h with
  | start => exact ⟨[], .nil k project [] rfl, fun _ _ _ _ => ⟨rfl, rfl, rfl⟩⟩
  | widen h hw ih =>
    obtain ⟨ws, hwrote, hbooked⟩ := ih
    exact ⟨ws, hwrote.congr (Store.widenings_spec hw ((h.keeps hs).sane hs)).1, hbooked⟩
  | @ended log s₁ s₂ p o ht hend ih =>
    obtain ⟨ws, hwrote, hbooked⟩ := ih
    obtain ⟨results, ha, hf⟩ := hend
    rw [List.map_append, List.map_append]
    obtain ⟨-, ⟨rfl, -, e, herror, -⟩ | ⟨-, embedded, result, rfl, hpersist, hr⟩⟩ := finish_cases hf
    · have hne : o.error ≠ none := by simp [herror]
      refine ⟨ws, ⟨hwrote.rows, hwrote.files.trans (List.sublist_append_left ..).subperm, hwrote.made⟩,
        fun hk files hw hlog => ?_⟩
      exact (hbooked hk files hw fun x hx => hlog x (List.mem_append_left _ hx)).failed hne
    · have hanswers : k.Answers p embedded := List.forall₂_map_right_iff.1 ha
      refine ⟨ws ++ [(p, s₁.taken ((Job.ofPrepared c 0 p).records project embedded))], ⟨fun q => ?_, ?_, ?_⟩,
        fun hk files hw hlog => ?_⟩
      · rw [rewrittenAll_concat, ← mem_rewritten_congr hwrote.rows]
        exact mem_rows_persist hpersist q
      · rw [List.map_append]
        exact hwrote.files.append (List.Subperm.refl _)
      · exact List.forall_mem_append.2 ⟨hwrote.made,
          List.forall_mem_singleton.2 ⟨embedded, hanswers, Store.taken_prefix _ _⟩⟩
      · obtain ⟨hlog, hlast⟩ := List.forall_mem_append.1 hlog
        obtain ⟨s₃, hok⟩ := hw _ _ ht hlog p (hlast _ List.mem_cons_self) embedded hanswers
        cases hpersist.symm.trans hok
        obtain ⟨hchunks, hembedded⟩ := finish_embedded (j := Job.ofPrepared c 0 p) hok
        rw [hf] at hchunks hembedded
        have hlength := (hanswers.fills hk).length_records project
        rw [taken_of_persist hok]
        exact (hbooked hk files hw hlog).wrote (hr.2 rfl) (hchunks.trans hlength.symm) hembedded

/-- Embedding files writes records of these files, and the outcomes tell of all of them if the store takes what it is
given. -/
theorem generate_wrote {w : World} (k : Contract c w.store.settings) (hf : k.floor w.providers w.health)
    (hs : w.store.Sane) (hidle : w.health.Idle) (project : String) (files : List Prepared) :
    ∃ ws, Wrote k project files w.store ws (w.generate c project files false).1.store ∧
      (k.Fits → Welcome k project files w.store → Booked (w.generate c project files false).2.outcomes ws) := by
  obtain ⟨log, ht, ho, hm, -, -, hall⟩ := generate_traced k hf hs project files
  obtain ⟨ws, hwrote, hbooked⟩ := ht.wrote hs
  refine ⟨ws, ⟨hwrote.rows, hwrote.files.trans (hall hidle).2.subperm, hwrote.made⟩, fun hk hw => ?_⟩
  rw [← ho]
  exact hbooked hk files hw hm

end CodeIndex.Embedding
