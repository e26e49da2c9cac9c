import CodeIndex.Proofs.Embedding.Chain
import CodeIndex.Proofs.Indexing.Rerun
import CodeIndex.Proofs.Isolation

/-!
A change of the model. A project is cleared just when some of its records was made with another model than that of the
first provider whose circuit is not open. All that is kept for other projects stays, and nothing is left to be cleared.
-/

namespace CodeIndex

open CodeIndex.Embedding Health

/-- A store that has lost all that it kept for a project, and nothing else. -/
structure Store.Cleared (project : String) (s s' : Store) : Prop where
  entries : s'.entries = s.entries.filter (·.project != project)
  rows : s'.rows = s.rows.filter (·.project != project)
  settings : s'.settings = s.settings
  others : ∀ q ≠ project, s'.share q = s.share q

theorem Store.cleared_clear (s : Store) (project : String) : s.Cleared project (s.clear project).1 :=
  ⟨entries_clear s project, rows_clear s project, (keeps_clear s project).settings, fun _ hq => share_clear s hq.symm⟩

theorem Health.Registry.isAvailable_iff {r : Registry} {now : Nat} {name : String} :
    r.isAvailable now name = true ↔ r.circuit now name ≠ .opened := bne_iff_ne

namespace Embedding.World

variable {w : World} {project : String}

/-- The model in use is that of the first provider whose circuit is not open. -/
theorem activeSignature_of_first {before after : List Provider} {p : Provider}
    (hproviders : w.providers = before ++ p :: after)
    (hbefore : ∀ q ∈ before, w.health.circuit w.now q.name = .opened) (hp : w.health.circuit w.now p.name ≠ .opened) :
    w.activeSignature = some p.signature := by
  have hfirst : w.providers.find? (fun q => w.health.isAvailable w.now q.name) = some p := by
    refine List.find?_eq_some_iff_append.2 ⟨Registry.isAvailable_iff.2 hp, before, after, hproviders, fun q hq => ?_⟩
    rw [Bool.not_eq_true', ← Bool.not_eq_true, Registry.isAvailable_iff]
    exact fun hne => hne (hbefore q hq)
  rw [activeSignature, hfirst, Option.map_some]

/-- With every circuit open no model is in use. -/
theorem activeSignature_of_opened (h : ∀ p ∈ w.providers, w.health.circuit w.now p.name = .opened) :
    w.activeSignature = none := by
  have hnone : w.providers.find? (fun q => w.health.isAvailable w.now q.name) = none :=
    List.find?_eq_none.2 fun q hq ha => Registry.isAvailable_iff.1 ha (h q hq)
  rw [activeSignature, hnone, Option.map_none]

theorem ensureModel_of_outdated (h : w.Outdated project) :
    w.ensureModel project = ({ w with store := (w.store.clear project).1 }, true) := if_pos (needsMigration_iff.2 h)

theorem ensureModel_of_not_outdated (h : ¬w.Outdated project) : w.ensureModel project = (w, false) :=
  if_neg (mt needsMigration_iff.1 h)

/-- Without records a project is of no model. -/
theorem not_outdated_of_cleared {s : Store} (h : s.Cleared project w.store) : ¬w.Outdated project := by
  rintro ⟨_, -, r, hr, hp, -⟩
  rw [h.rows] at hr
  exact bne_iff_ne.1 (List.mem_filter.1 hr).2 hp

/-- A project is cleared exactly when it has a record of another model than that of the first provider whose circuit is
not open, and then loses all that is kept for it, while other projects lose nothing. Else, and with every circuit open,
nothing changes. No record of another model is left, and there is nothing to be done a second time. -/
theorem ensureModel_exact (w : World) (project : String) :
    let out := w.ensureModel project
    (∀ before p after, w.providers = before ++ p :: after →
      (∀ q ∈ before, w.health.circuit w.now q.name = .opened) → w.health.circuit w.now p.name ≠ .opened →
        (out.2 = true ↔ ∃ r ∈ w.store.rows, r.project = project ∧ r.signature ≠ p.signature) ∧
          ∀ r ∈ out.1.store.rows, r.project = project → r.signature = p.signature) ∧
      ((∀ p ∈ w.providers, w.health.circuit w.now p.name = .opened) → out.2 = false) ∧
      (out.2 = true → out.1 = { w with store := out.1.store } ∧ w.store.Cleared project out.1.store) ∧
      (out.2 = false → out.1 = w) ∧
      out.1.needsMigration project = false := by
  intro out
  have hactive : ∀ {p : Provider}, w.activeSignature = some p.signature →
      (w.Outdated project ↔ ∃ r ∈ w.store.rows, r.project = project ∧ r.signature ≠ p.signature) := by
    intro p hp
    rw [Outdated, hp]
    simp
  by_cases hold : w.Outdated project
  · have hout : out = ({ w with store := (w.store.clear project).1 }, true) := ensureModel_of_outdated hold
    have hcleared : w.store.Cleared project out.1.store := by
      rw [hout]
      exact w.store.cleared_clear project
    refine ⟨fun before p after hproviders hbefore hp => ⟨?_, fun r hr hrp => ?_⟩, fun hall => ?_, fun _ => ⟨?_, hcleared⟩,
      fun hfalse => ?_, ?_⟩
    · rw [← hactive (activeSignature_of_first hproviders hbefore hp), hout]
      exact iff_of_true rfl hold
    · rw [hcleared.rows] at hr
      exact absurd hrp (bne_iff_ne.1 (List.mem_filter.1 hr).2)
    · obtain ⟨current, hcurrent, -⟩ := hold
      rw [activeSignature_of_opened hall] at hcurrent
      cases hcurrent
    · rw [hout]
    · rw [hout] at hfalse
      cases hfalse
    · rw [← Bool.not_eq_true, needsMigration_iff]
      exact not_outdated_of_cleared hcleared
  · have hout : out = (w, false) := ensureModel_of_not_outdated hold
    refine ⟨fun before p after hproviders hbefore hp => ?_, fun _ => by rw [hout], fun htrue => ?_,
      fun _ => by rw [hout], ?_⟩
    · have hiff := hactive (activeSignature_of_first hproviders hbefore hp)
      rw [← hiff, hout]
      refine ⟨iff_of_false Bool.false_ne_true hold, fun r hr hrp => ?_⟩
      by_contra hne
      exact hold (hiff.2 ⟨r, hr, hrp, hne⟩)
    · rw [hout] at htrue
      cases htrue
    · rw [hout, ← Bool.not_eq_true, needsMigration_iff]
      exact hold

/-- A record of a project, in a vector of one component. -/
def shortRecord (project : String) : Record := { Store.noteRecord 1 with id := project, project, fileId := project }

/-- Three providers, of which the second is in use, and a store with a record of each of two projects. -/
def secondInUse (start : Store) : World :=
  { threeProviders with store := start.after [.put (shortRecord "p"), .put (shortRecord "q")] }

theorem rows_secondInUse :
    ∀ start ∈ [Store.memory {}, Store.table {}],
      (secondInUse start).store.rows = [shortRecord "p", shortRecord "q"] := by
  decide +kernel

/-- The records are of another model, and the first project is cleared in either kind of store. -/
theorem ensureModel_exact_secondInUse :
    [Store.memory {}, Store.table {}].map (fun start =>
        let out := (secondInUse start).ensureModel "p"
        (out.2, out.1.store.rows, out.1.needsMigration "p")) =
      [(true, [shortRecord "q"], false), (true, [shortRecord "q"], false)] := by
  have hopened : threeProviders.health.circuit 0 "a" = .opened := by decide +kernel
  have hclosed : threeProviders.health.circuit 0 "b" ≠ .opened := by decide +kernel
  refine List.map_congr_left (g := fun _ => (true, [shortRecord "q"], false)) fun start hstart => ?_
  obtain ⟨hexact, -, hcleared, -, hsettled⟩ := ensureModel_exact (secondInUse start) "p"
  have hrows := rows_secondInUse start hstart
  have hold : ∃ r ∈ (secondInUse start).store.rows, r.project = "p" ∧ r.signature ≠ ⟨"b:m", 2, float32⟩ := by
    refine ⟨shortRecord "p", ?_, rfl, by decide +kernel⟩
    rw [hrows]
    exact List.mem_cons_self
  have hout := (hexact [_] _ [_] rfl (List.forall_mem_singleton.2 hopened) hclosed).1.2 hold
  have hleft : ((secondInUse start).ensureModel "p").1.store.rows = [shortRecord "q"] := by
    rw [(hcleared hout).2.rows, hrows]
    decide +kernel
  exact Prod.ext hout (Prod.ext hleft hsettled)

end Embedding.World

end CodeIndex
