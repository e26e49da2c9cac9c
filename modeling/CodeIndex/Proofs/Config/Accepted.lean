import CodeIndex.Config.Chain

/-!
Settings in which nothing is found wrong, and the chain of providers that they name. The check sees to it that some
provider is enabled, that each has its key and a length of vectors. It looks neither at the address of the daemon, of
which the chain needs that it takes a port, nor at how long the vectors are that the store lets in.
-/

open CodeIndex.Embedding

namespace CodeIndex.Config

/-- What the providers announce that settings enable, in the order in which they are asked. -/
def Settings.announced (s : Settings) : List Signature :=
  ([ (s.openai.enabled, ⟨s!"openai:{s.openai.model}", s.openai.dimensions, float32⟩),
     (s.ollama.enabled, ⟨s!"ollama:{s.ollama.model}", s.ollama.dimensions, float32⟩),
     (s.hashing.enabled, ⟨"local:feature-hash-v1", s.hashing.dimensions, float32⟩) ] : List (Bool × Signature)).filterMap
    fun (enabled, signature) => if enabled then some signature else none

/-- A port can be given to the address of the daemon, if it is asked at all. -/
def Settings.Addressed (s : Settings) : Prop :=
  s.ollama.enabled = true → Url.takesPort (Remote.Ollama.hostPort s.ollama.baseUrl).1 = true

/-- The same settings over a store that lets in vectors up to some length. -/
def Settings.withLimit (s : Settings) (limit : Nat) : Settings :=
  { s with index := { s.index with maxDimensions := some limit } }

namespace Settings

variable {s : Settings}

theorem fault?_eq_none : s.fault? = none ↔ ∀ check ∈ s.checks, check.1 = false := by
  unfold fault?
  rw [Option.map_eq_none_iff, List.find?_eq_none]
  simp only [Bool.not_eq_true]

/-- What the check has seen to before the chain is made. -/
structure Ready (s : Settings) : Prop where
  enabled : s.enabledCount ≠ 0
  key : s.openai.enabled = true → s.apiKey?.isSome = true
  openai : s.openai.enabled = true → 1 ≤ s.openai.dimensions
  ollama : s.ollama.enabled = true → 1 ≤ s.ollama.dimensions
  hashing : s.hashing.enabled = true → 1 ≤ s.hashing.dimensions

theorem ready_of_accepted (h : s.fault? = none) : s.Ready := by
  rw [fault?_eq_none] at h
  simp only [checks, List.forall_mem_cons] at h
  obtain ⟨-, -, -, -, -, hcount, hkey, hopenai, hollama, hhashing, -⟩ := h
  refine ⟨by simpa using hcount, fun he => ?_, fun he => ?_, fun he => ?_, fun he => ?_⟩
  · rw [he, Bool.true_and, Option.isNone_eq_false_iff] at hkey
    exact hkey
  all_goals
    simp only [he, Bool.true_and, beq_eq_false_iff_ne] at hopenai hollama hhashing
    omega

/-- Whether settings are accepted does not depend on the limit of the store, as long as that is not zero. -/
theorem accepted_withLimit (h : s.fault? = none) {limit : Nat} (hl : 1 ≤ limit) :
    (s.withLimit limit).fault? = none := by
  rw [fault?_eq_none] at *
  have hlimit : (some limit == some 0) = false := by
    simp only [beq_eq_false_iff_ne, ne_eq, Option.some.injEq]
    omega
  simp only [checks, List.forall_mem_cons] at *
  obtain ⟨h₁, h₂, h₃, h₄, h₅, h₆, h₇, h₈, h₉, h₁₀, h₁₁, h₁₂, h₁₃, -, h₁₅⟩ := h
  exact ⟨h₁, h₂, h₃, h₄, h₅, h₆, h₇, h₈, h₉, h₁₀, h₁₁, h₁₂, h₁₃, hlimit, h₁₅⟩

variable {providers : List Provider}

/-- The service is there with its key. -/
theorem openai?_ok (h : s.Ready) : ∃ providers, s.openai? = .ok providers ∧
    providers.map Provider.signature =
      if s.openai.enabled then [⟨s!"openai:{s.openai.model}", s.openai.dimensions, float32⟩] else [] := by
  unfold openai?
  by_cases he : s.openai.enabled = true
  · obtain ⟨key, hkey⟩ := Option.isSome_iff_exists.1 (h.key he)
    rw [if_pos he, if_pos he, hkey]
    exact ⟨_, rfl, rfl⟩
  · rw [if_neg he, if_neg he]
    exact ⟨[], rfl, rfl⟩

/-- The daemon is there if a port can be given to its address. -/
theorem ollama?_ok (h : s.Addressed) : ∃ providers, s.ollama? = .ok providers ∧
    providers.map Provider.signature =
      if s.ollama.enabled then [⟨s!"ollama:{s.ollama.model}", s.ollama.dimensions, float32⟩] else [] := by
  unfold ollama?
  by_cases he : s.ollama.enabled = true
  · rw [if_pos he, if_pos he]
    unfold Remote.Ollama.ofUrl?
    dsimp only
    rw [if_pos (h he)]
    exact ⟨_, rfl, rfl⟩
  · rw [if_neg he, if_neg he]
    exact ⟨[], rfl, rfl⟩

theorem ollama?_unaddressed (h : ¬s.Addressed) : s.ollama? = .error .badAddress := by
  obtain ⟨he, hport⟩ := Classical.not_imp.1 h
  unfold ollama? Remote.Ollama.ofUrl?
  dsimp only
  rw [if_pos he, if_neg hport]

/-- The provider at hand takes the length that it is given, which is not zero. -/
theorem signature_hashing? (h : s.Ready) : s.hashing?.map Provider.signature =
    if s.hashing.enabled then [⟨"local:feature-hash-v1", s.hashing.dimensions, float32⟩] else [] := by
  unfold hashing?
  by_cases he : s.hashing.enabled = true
  · have hdimensions : max s.hashing.dimensions 1 = s.hashing.dimensions := Nat.max_eq_left (h.hashing he)
    rw [if_pos he, if_pos he]
    simp only [Provider.hashing, List.map_singleton, Provider.signature, hdimensions]
    rfl
  · rw [if_neg he, if_neg he]
    rfl

theorem announced_eq (s : Settings) : s.announced =
    (if s.openai.enabled then [⟨s!"openai:{s.openai.model}", s.openai.dimensions, float32⟩] else []) ++
      (if s.ollama.enabled then [⟨s!"ollama:{s.ollama.model}", s.ollama.dimensions, float32⟩] else []) ++
        if s.hashing.enabled then [⟨"local:feature-hash-v1", s.hashing.dimensions, float32⟩] else [] := by
  unfold announced
  cases s.openai.enabled <;> cases s.ollama.enabled <;> cases s.hashing.enabled <;> rfl

theorem announced_ne_nil (h : s.Ready) : s.announced ≠ [] := by
  have hcount := h.enabled
  rw [announced_eq]
  unfold enabledCount at hcount
  revert hcount
  cases s.openai.enabled <;> cases s.ollama.enabled <;> cases s.hashing.enabled <;> simp

/-- Each of them announces vectors of some length. -/
theorem one_le_dimensions (h : s.Ready) : ∀ signature ∈ s.announced, 1 ≤ signature.dimensions := by
  intro signature hs
  obtain ⟨⟨enabled, other⟩, hm, he⟩ := List.mem_filterMap.1 hs
  dsimp only at he
  split at he
  · rename_i henabled
    obtain rfl : other = signature := Option.some.inj he
    simp only [List.mem_cons, List.not_mem_nil, or_false, Prod.mk.injEq] at hm
    obtain ⟨rfl, rfl⟩ | ⟨rfl, rfl⟩ | ⟨rfl, rfl⟩ := hm
    · exact h.openai henabled
    · exact h.ollama henabled
    · exact h.hashing henabled
  · cases he

theorem chain_addressed (h : s.Ready) (ha : s.Addressed) :
    ∃ providers, s.chain = .ok providers ∧ providers.map Provider.signature = s.announced := by
  obtain ⟨first, hfirst, hopenai⟩ := openai?_ok h
  obtain ⟨second, hsecond, hollama⟩ := ollama?_ok ha
  have hall : (first ++ second ++ s.hashing?).map Provider.signature = s.announced := by
    rw [List.map_append, List.map_append, hopenai, hollama, signature_hashing? h, announced_eq]
  have hne : (first ++ second ++ s.hashing?).isEmpty = false := by
    rw [← Bool.not_eq_true, List.isEmpty_iff]
    intro hnil
    rw [hnil] at hall
    exact announced_ne_nil h hall.symm
  refine ⟨first ++ second ++ s.hashing?, ?_, hall⟩
  simp only [chain, hfirst, hsecond, bind, Except.bind, hne, Bool.false_eq_true, if_false]

theorem chain_unaddressed (h : s.Ready) (ha : ¬s.Addressed) : s.chain = .error .badAddress := by
  obtain ⟨first, hfirst, -⟩ := openai?_ok h
  simp only [chain, hfirst, ollama?_unaddressed ha, bind, Except.bind]

/-- The chain does not know of the store. -/
theorem chain_withLimit (s : Settings) (limit : Nat) : (s.withLimit limit).chain = s.chain := by
  have hopenai : (s.withLimit limit).openai? = s.openai? := rfl
  have hollama : (s.withLimit limit).ollama? = s.ollama? := by
    unfold ollama? withLimit
    with_reducible rfl
  have hhashing : (s.withLimit limit).hashing? = s.hashing? := rfl
  rw [chain, chain, hopenai, hollama, hhashing]

end Settings

/-- Of accepted settings the chain holds just the providers that are enabled, in their order, unless the daemon's
address takes no port; then there is no chain. How long the store's vectors may be is of no account. -/
theorem chain_of_accepted {s : Settings} (h : s.fault? = none) :
    (s.Addressed → ∃ providers, s.chain = .ok providers ∧ providers ≠ [] ∧
      providers.map Provider.signature = s.announced ∧ ∀ p ∈ providers, 1 ≤ p.dimensions) ∧
    (¬s.Addressed → s.chain = .error .badAddress) ∧
    ∀ limit, 1 ≤ limit → (s.withLimit limit).fault? = none ∧ (s.withLimit limit).chain = s.chain := by
  have hready := Settings.ready_of_accepted h
  refine ⟨fun ha => ?_, Settings.chain_unaddressed hready, fun limit hl =>
    ⟨Settings.accepted_withLimit h hl, Settings.chain_withLimit s limit⟩⟩
  obtain ⟨providers, hchain, hall⟩ := Settings.chain_addressed hready ha
  refine ⟨providers, hchain, ?_, hall, fun p hp => ?_⟩
  · rintro rfl
    exact Settings.announced_ne_nil hready hall.symm
  · exact Settings.one_le_dimensions hready p.signature (hall ▸ List.mem_map_of_mem hp)

/-- All three providers, the daemon at its usual address. -/
def allEnabled : Settings where
  openai := { enabled := true, apiKey := some ⟨"sk-test"⟩ }
  ollama := { enabled := true }

theorem chain_of_accepted_all : allEnabled.fault? = none ∧ allEnabled.Addressed ∧
    ∃ providers, allEnabled.chain = .ok providers ∧ providers.map Provider.signature =
      [⟨"openai:text-embedding-3-small", 1536, float32⟩, ⟨"ollama:nomic-embed-text", 768, float32⟩,
        ⟨"local:feature-hash-v1", 384, float32⟩] := by
  have hfault : allEnabled.fault? = none := by decide +kernel
  have haddressed : allEnabled.Addressed := fun _ => by decide +kernel
  obtain ⟨providers, hchain, -, hall, -⟩ := (chain_of_accepted hfault).1 haddressed
  exact ⟨hfault, haddressed, providers, hchain, hall.trans (by decide +kernel)⟩

/-- The daemon at an address without a scheme. -/
def bareAddress : Settings where
  ollama := { enabled := true, baseUrl := "localhost:11434" }

/-- Accepted are settings with which there is no chain, and settings with a provider whose vectors the store will not
let in. -/
theorem accepted_without_chain :
    (bareAddress.fault? = none ∧ bareAddress.chain = .error .badAddress) ∧
      (({} : Settings).withLimit 100).fault? = none ∧
        ∃ p, (({} : Settings).withLimit 100).chain = .ok [p] ∧ 100 < p.dimensions := by
  have hfault : bareAddress.fault? = none := by decide +kernel
  have hbare : ¬bareAddress.Addressed := by
    intro h
    have hport : Url.takesPort (Remote.Ollama.hostPort bareAddress.ollama.baseUrl).1 = false := by decide +kernel
    rw [h rfl] at hport
    cases hport
  refine ⟨⟨hfault, Settings.chain_unaddressed (Settings.ready_of_accepted hfault) hbare⟩, by decide +kernel,
    .hashing 384, rfl, by decide⟩

end CodeIndex.Config
