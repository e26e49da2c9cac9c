import CodeIndex.Proofs.Files.Naming
import CodeIndex.Proofs.Store.Identifiers
import Mathlib.Data.List.TakeWhile

/-!
Spellings of a path. Slashes and pairs of dot and slash in front of a path do not count, but they are dropped once only,
the pairs first. So the normal form of a path is its own normal form unless slashes hide another pair. Of the identifiers
that are derived from normal forms each tells what it was derived from, as far as digests are apart.
-/

namespace CodeIndex

/-- The characters of a path with slashes of one kind. -/
def slashed (path : String) : List Char := path.toList.map fun c => if c = '\\' then '/' else c

/-- Pairs of dot and slash in front, then slashes, and behind these another pair. -/
def Buried (path : String) : Prop :=
  ∃ pairs slashes rest, slashed path =
    (List.replicate pairs ['.', '/']).flatten ++ (List.replicate (slashes + 1) '/' ++ '.' :: '/' :: rest)

theorem backslash_not_mem_slashed (path : String) : '\\' ∉ slashed path := fun h => by
  obtain ⟨c, -, hc⟩ := List.mem_map.1 h
  split at hc
  · exact absurd hc (by decide)
  · contradiction

theorem toList_normalizePath (path : String) :
    (normalizePath path).toList = (dropDotSlashes (slashed path)).dropWhile (· == '/') := String.toList_ofList

theorem dropDotSlashes_pairs (pairs : Nat) (cs : List Char) :
    dropDotSlashes ((List.replicate pairs ['.', '/']).flatten ++ cs) = dropDotSlashes cs := by
  induction pairs with
  | zero => rfl
  | succ n ih => exact ih

theorem dropDotSlashes_eq_self {cs : List Char} (h : ¬['.', '/'] <+: cs) : dropDotSlashes cs = cs := by
  unfold dropDotSlashes
  split
  · rename_i rest
    exact absurd ⟨rest, rfl⟩ h
  · rfl

/-- What is dropped are pairs, and none is left in front. -/
theorem dropDotSlashes_spec (cs : List Char) :
    (∃ pairs, cs = (List.replicate pairs ['.', '/']).flatten ++ dropDotSlashes cs) ∧ ¬['.', '/'] <+: dropDotSlashes cs := by
  fun_induction dropDotSlashes cs with
  | case1 rest ih =>
    obtain ⟨⟨pairs, hpairs⟩, hrest⟩ := ih
    exact ⟨⟨pairs + 1, congrArg (fun cs => '.' :: '/' :: cs) hpairs⟩, hrest⟩
  | case2 cs hcs =>
    refine ⟨⟨0, rfl⟩, ?_⟩
    rintro ⟨rest, rfl⟩
    exact hcs rest rfl

theorem length_dropDotSlashes_le (cs : List Char) : (dropDotSlashes cs).length ≤ cs.length := by
  obtain ⟨pairs, hpairs⟩ := (dropDotSlashes_spec cs).1
  conv_rhs => rw [hpairs]
  simp

theorem dropWhile_slash_spec (cs : List Char) :
    ∃ slashes, cs = List.replicate slashes '/' ++ cs.dropWhile (· == '/') := by
  refine ⟨(cs.takeWhile (· == '/')).length, ?_⟩
  have htake : cs.takeWhile (· == '/') = List.replicate (cs.takeWhile (· == '/')).length '/' :=
    List.eq_replicate_of_mem fun c hc => by simpa using List.mem_takeWhile_imp hc
  rw [← htake, List.takeWhile_append_dropWhile]

/-- The normal form begins with a pair of dot and slash if slashes hid one. -/
theorem pair_prefix_normalizePath {path : String} : ['.', '/'] <+: (normalizePath path).toList ↔ Buried path := by
  rw [toList_normalizePath]
  obtain ⟨⟨pairs, hpairs⟩, hfront⟩ := dropDotSlashes_spec (slashed path)
  constructor
  · rintro ⟨rest, hrest⟩
    obtain ⟨slashes, hslashes⟩ := dropWhile_slash_spec (dropDotSlashes (slashed path))
    rw [← hrest] at hslashes
    cases slashes with
    | zero => exact absurd ⟨rest, hslashes.symm⟩ hfront
    | succ n => exact ⟨pairs, n, rest, by rw [hpairs, hslashes]; rfl⟩
  · rintro ⟨pairs, slashes, rest, heq⟩
    refine ⟨rest, ?_⟩
    have hslash : ¬['.', '/'] <+: List.replicate (slashes + 1) '/' ++ '.' :: '/' :: rest := by
      rintro ⟨_, h⟩
      cases h
    rw [heq, dropDotSlashes_pairs, dropDotSlashes_eq_self hslash, List.dropWhile_append_of_pos (by simp)]
    rfl

theorem slashed_normalizePath (path : String) : slashed (normalizePath path) = (normalizePath path).toList := by
  refine map_slash fun h => backslash_not_mem_slashed path ?_
  obtain ⟨pairs, hpairs⟩ := (dropDotSlashes_spec (slashed path)).1
  rw [toList_normalizePath] at h
  rw [hpairs]
  exact List.mem_append_right _ ((List.dropWhile_sublist _).subset h)

/-- A normal form stays as it is if it does not begin with a pair of dot and slash. -/
theorem normalizePath_normalizePath_iff {path : String} :
    normalizePath (normalizePath path) = normalizePath path ↔ ¬['.', '/'] <+: (normalizePath path).toList := by
  have hslash : ∀ c ∈ (normalizePath path).toList.head?, (c == '/') = false := fun c hc => by
    have h := List.head?_dropWhile_not (· == '/') (dropDotSlashes (slashed path))
    rw [toList_normalizePath] at hc
    rw [Option.mem_def.1 hc] at h
    simpa using h
  rw [← String.toList_inj, toList_normalizePath (normalizePath path), slashed_normalizePath]
  constructor
  · rintro heq ⟨rest, hrest⟩
    -- another pair is dropped, so the text gets shorter
    have hlength := congrArg List.length heq
    have hle := (List.dropWhile_sublist (· == '/')).length_le.trans (length_dropDotSlashes_le rest)
    rw [← hrest] at hlength
    change ((dropDotSlashes rest).dropWhile _).length = rest.length + 2 at hlength
    omega
  · intro hpair
    rw [dropDotSlashes_eq_self hpair]
    cases hn : (normalizePath path).toList with
    | nil => rfl
    | cons c cs =>
      rw [hn] at hslash
      exact List.dropWhile_cons_of_neg (by simp [hslash c rfl])

/-- A path is brought into normal form at once, and its identifiers are those of its normal form, unless slashes hide a
pair of dot and slash. -/
theorem normalizePath_settled_iff (path : String) :
    (normalizePath (normalizePath path) = normalizePath path ↔ ¬Buried path) ∧
      (∀ project, fileKey project (normalizePath path) = fileKey project path ↔ ¬Buried path) ∧
      (∀ project index,
        chunkKey project (normalizePath path) index = chunkKey project path index ↔ ¬Buried path) ∧
      (¬Buried path → ∀ project, fileId project (normalizePath path) = fileId project path ∧
        ∀ index, chunkId project (normalizePath path) index = chunkId project path index) := by
  have hform : normalizePath (normalizePath path) = normalizePath path ↔ ¬Buried path :=
    normalizePath_normalizePath_iff.trans (not_congr pair_prefix_normalizePath)
  have hfile : ∀ project, fileKey project (normalizePath path) = fileKey project path ↔ ¬Buried path := fun project =>
    ⟨fun h => hform.1 (fileKey_inj h), fun h => by rw [fileKey, hform.2 h]; rfl⟩
  have hchunk : ∀ project index,
      chunkKey project (normalizePath path) index = chunkKey project path index ↔ ¬Buried path := fun project index =>
    ⟨fun h => hform.1 (chunkKey_inj h).1, fun h => by rw [chunkKey, hform.2 h]; rfl⟩
  refine ⟨hform, hfile, hchunk, fun h project => ⟨?_, fun index => ?_⟩⟩
  · rw [fileId, (hfile project).2 h, fileId]
  · rw [chunkId, (hchunk project index).2 h, chunkId]

/-- A slash that is written twice hides a pair, and so do backslashes about the dot of a name. -/
theorem normalizePath_unsettled :
    (∀ path ∈ [".//./a", "\\.\\a"], normalizePath (normalizePath path) ≠ normalizePath path) ∧
      fileKey "p" (normalizePath ".//./a") ≠ fileKey "p" ".//./a" := by decide +kernel

section Keys

variable {texts : Set String} {p q path path' : String} {i j : Nat}

theorem fileKey_eq_iff (hp : ':' ∉ p.toList) (hq : ':' ∉ q.toList) :
    fileKey p path = fileKey q path' ↔ p = q ∧ normalizePath path = normalizePath path' := by
  constructor
  · intro h
    obtain rfl := project_of_fileKey hp hq h
    exact ⟨rfl, fileKey_inj h⟩
  · rintro ⟨rfl, hpath⟩
    rw [fileKey, hpath, fileKey]

theorem chunkKey_eq_iff (hp : ':' ∉ p.toList) (hq : ':' ∉ q.toList) :
    chunkKey p path i = chunkKey q path' j ↔ p = q ∧ normalizePath path = normalizePath path' ∧ i = j := by
  constructor
  · intro h
    obtain rfl := project_of_chunkKey hp hq h
    exact ⟨rfl, chunkKey_inj h⟩
  · rintro ⟨rfl, hpath, rfl⟩
    rw [chunkKey, hpath, chunkKey]

/-- The first word of a key tells whether it is that of a file. -/
theorem fileKey_ne_chunkKey : fileKey p path ≠ chunkKey q path' i := fun h => by
  have h := congrArg String.toList h
  rw [toList_fileKey, toList_chunkKey] at h
  have hfirst := congrArg List.head? h
  cases hfirst

/-- Identifiers of projects without a colon tell whether they are that of a file or of a chunk, and of what project, of
what path and of which number. -/
theorem identifiers_tell (hids : Set.InjOn (Digest.Uuid.ofName idSpace) texts) (hp : ':' ∉ p.toList)
    (hq : ':' ∉ q.toList) (path path' : String) (i j : Nat) :
    (chunkKey p path i ∈ texts → chunkKey q path' j ∈ texts →
        (chunkId p path i = chunkId q path' j ↔ p = q ∧ normalizePath path = normalizePath path' ∧ i = j)) ∧
      (fileKey p path ∈ texts → fileKey q path' ∈ texts →
        (fileId p path = fileId q path' ↔ p = q ∧ normalizePath path = normalizePath path')) ∧
      (fileKey p path ∈ texts → chunkKey q path' j ∈ texts → fileId p path ≠ chunkId q path' j) := by
  refine ⟨fun hm hm' => ?_, fun hm hm' => ?_, fun hm hm' he => fileKey_ne_chunkKey (hids hm hm' he)⟩
  · rw [← chunkKey_eq_iff hp hq]
    exact hids.eq_iff hm hm'
  · rw [← fileKey_eq_iff hp hq]
    exact hids.eq_iff hm hm'

end Keys

theorem identifiers_tell_two :
    let keys := [fileKey "p" "a.md", fileKey "p" "b.md", chunkKey "p" "a.md" 1, chunkKey "p" "b.md" 0]
    Set.InjOn (Digest.Uuid.ofName idSpace) {text | text ∈ keys} ∧ chunkId "p" "a.md" 1 ≠ chunkId "p" "b.md" 0 ∧
      fileId "p" "a.md" ≠ fileId "p" "b.md" ∧ fileId "p" "a.md" ≠ chunkId "p" "b.md" 0 := by
  intro keys
  have hnodup : (keys.map (Digest.Uuid.ofName idSpace)).Nodup := by
    obtain ⟨ha, hb, -, ha₁, hb₀⟩ := ids_of_two
    change [fileId "p" "a.md", fileId "p" "b.md", chunkId "p" "a.md" 1, chunkId "p" "b.md" 0].Nodup
    rw [ha, hb, ha₁, hb₀]
    decide
  have hids : Set.InjOn (Digest.Uuid.ofName idSpace) {text | text ∈ keys} := fun x hx y hy =>
    List.inj_on_of_nodup_map hnodup hx hy
  have hmem : ∀ text ∈ keys, text ∈ {text | text ∈ keys} := fun _ h => h
  simp only [keys, List.forall_mem_cons] at hmem
  obtain ⟨hfile, hfile', hchunk, hchunk', -⟩ := hmem
  obtain ⟨hchunks, hfiles, hkinds⟩ :=
    identifiers_tell hids (p := "p") (q := "p") (by decide) (by decide) "a.md" "b.md" 1 0
  refine ⟨hids, fun he => ?_, fun he => ?_, hkinds hfile hchunk'⟩
  · exact absurd ((hchunks hchunk hchunk').1 he).2.2 (by decide)
  · exact absurd ((hfiles hfile hfile').1 he).2 (by decide)

end CodeIndex
