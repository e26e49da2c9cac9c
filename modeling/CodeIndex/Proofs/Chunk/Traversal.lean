import CodeIndex.Chunk.Declaration
import Mathlib.Data.List.Basic
import Mathlib.Data.List.Forall2
import Mathlib.Order.Basic

/-!
The search for declarations, told by addresses. A node below the root is known by the numbers of the children on the way
down to it, and pre-order is the lexicographic order of these addresses. What the search finds is told of each node by
itself: by its kind and size, and by those of the nodes that it lies in.
-/

namespace CodeIndex

namespace Syntax.Node

/-- The node at an address, which gives the numbers of the children on the way down. -/
def nodeAt? (n : Node) : List Nat → Option Node
  | [] => some n
  | i :: path => n.children[i]?.bind (·.nodeAt? path)

/-- A node below `n` that can be reached through named nodes: it is named itself, and so are all on the way. -/
structure Reaches (n : Node) (path : List Nat) (d : Node) : Prop where
  below : path ≠ []
  found : n.nodeAt? path = some d
  named : ∀ q m, q ≠ [] → q <+: path → n.nodeAt? q = some m → m.named = true

mutual

/-- The addresses of the nodes that can be reached, as the search comes by them. -/
def reached : Node → List (List Nat)
  | mk _ _ _ _ _ cs => reachedFrom 0 cs

/-- Those of the children that are left and of the nodes below them; `i` children were passed. -/
def reachedFrom (i : Nat) : List Node → List (List Nat)
  | [] => []
  | c :: rest => (if c.named then [i] :: (reached c).map (i :: ·) else []) ++ reachedFrom (i + 1) rest

end

theorem reached_eq (n : Node) : n.reached = reachedFrom 0 n.children := by
  cases n
  rw [reached, children]

theorem nodeAt?_cons {n c : Node} {i : Nat} (hc : n.children[i]? = some c) (path : List Nat) :
    n.nodeAt? (i :: path) = c.nodeAt? path := by
  rw [nodeAt?, hc, Option.bind_some]

theorem reaches_singleton {n d : Node} {i : Nat} : n.Reaches [i] d ↔ n.children[i]? = some d ∧ d.named = true := by
  constructor
  · intro h
    have hd : n.children[i]? = some d := by simpa [nodeAt?] using h.found
    exact ⟨hd, h.named [i] d h.below List.prefix_rfl h.found⟩
  · rintro ⟨hd, hn⟩
    have hfound : n.nodeAt? [i] = some d := nodeAt?_cons hd []
    refine ⟨List.cons_ne_nil _ _, hfound, fun q m hq hp hm => ?_⟩
    obtain rfl : q = [i] := by
      rcases List.prefix_cons_iff.1 hp with rfl | ⟨t, rfl, ht⟩
      · exact absurd rfl hq
      · rw [List.prefix_nil.1 ht]
    rw [hfound] at hm
    exact Option.some.inj hm ▸ hn

/-- One child further up. -/
theorem reaches_cons {n d : Node} {i : Nat} {path : List Nat} (hpath : path ≠ []) :
    n.Reaches (i :: path) d ↔ ∃ c, n.children[i]? = some c ∧ c.named = true ∧ c.Reaches path d := by
  constructor
  · intro h
    obtain ⟨c, hc, hd⟩ := Option.bind_eq_some_iff.1 h.found
    refine ⟨c, hc, h.named [i] c (List.cons_ne_nil _ _) ⟨path, rfl⟩ (nodeAt?_cons hc []), hpath, hd, fun q m hq hp hm => ?_⟩
    exact h.named (i :: q) m (List.cons_ne_nil _ _) (List.prefix_cons_inj i |>.2 hp) ((nodeAt?_cons hc q).trans hm)
  · rintro ⟨c, hc, hn, h⟩
    refine ⟨List.cons_ne_nil _ _, (nodeAt?_cons hc path).trans h.found, fun q m hq hp hm => ?_⟩
    rcases List.prefix_cons_iff.1 hp with rfl | ⟨t, rfl, ht⟩
    · exact absurd rfl hq
    · rw [nodeAt?_cons hc] at hm
      by_cases htn : t = []
      · rw [htn, nodeAt?, Option.some.injEq] at hm
        exact hm ▸ hn
      · exact h.named t m htn ht hm

theorem mem_reachedFrom {i : Nat} {cs : List Node} {path : List Nat} :
    path ∈ reachedFrom i cs ↔
      ∃ j c rest, path = (i + j) :: rest ∧ cs[j]? = some c ∧ c.named = true ∧ (rest = [] ∨ rest ∈ c.reached) := by
  induction cs generalizing i with
  | nil => simp [reachedFrom]
  | cons c cs ih =>
    rw [reachedFrom, List.mem_append, ih]
    constructor
    · rintro (h | ⟨j, d, rest, rfl, hd⟩)
      · split at h
        · rename_i hn
          rcases List.mem_cons.1 h with rfl | h
          · exact ⟨0, c, [], rfl, rfl, hn, .inl rfl⟩
          · obtain ⟨rest, hrest, rfl⟩ := List.mem_map.1 h
            exact ⟨0, c, rest, rfl, rfl, hn, .inr hrest⟩
        · cases h
      · exact ⟨j + 1, d, rest, by rw [Nat.add_right_comm, Nat.add_assoc], hd⟩
    · rintro ⟨_ | j, d, rest, rfl, hd, hn, hrest⟩
      · obtain rfl : c = d := Option.some.inj hd
        left
        rw [if_pos hn]
        rcases hrest with rfl | hrest
        · exact List.mem_cons_self
        · exact List.mem_cons_of_mem _ (List.mem_map_of_mem hrest)
      · exact .inr ⟨j, d, rest, by rw [Nat.add_right_comm, Nat.add_assoc], hd, hn, hrest⟩

theorem ne_nil_of_mem_reached {n : Node} {path : List Nat} (h : path ∈ n.reached) : path ≠ [] := by
  rw [reached_eq, mem_reachedFrom] at h
  obtain ⟨j, c, rest, rfl, -⟩ := h
  exact List.cons_ne_nil _ _

/-- The search comes by just the nodes that can be reached. -/
theorem mem_reached {n : Node} {path : List Nat} : path ∈ n.reached ↔ ∃ d, n.Reaches path d := by
  induction path generalizing n with
  | nil => exact ⟨fun h => absurd rfl (ne_nil_of_mem_reached h), fun ⟨d, h⟩ => absurd rfl h.below⟩
  | cons i path ih =>
    have hfirst : i :: path ∈ n.reached ↔
        ∃ c, n.children[i]? = some c ∧ c.named = true ∧ (path = [] ∨ path ∈ c.reached) := by
      rw [reached_eq, mem_reachedFrom]
      constructor
      · rintro ⟨j, c, rest, he, hc⟩
        obtain ⟨rfl, rfl⟩ := List.cons.inj he
        rw [← Nat.zero_add j] at hc
        exact ⟨c, hc⟩
      · rintro ⟨c, hc⟩
        exact ⟨i, c, path, by rw [Nat.zero_add], hc⟩
    rw [hfirst]
    by_cases hpath : path = []
    · subst hpath
      simp [reaches_singleton]
    · simp only [reaches_cons hpath, hpath, false_or, ih]
      exact ⟨fun ⟨c, hc, hn, d, h⟩ => ⟨d, c, hc, hn, h⟩, fun ⟨d, c, hc, hn, h⟩ => ⟨c, hc, hn, d, h⟩⟩

mutual

/-- The search comes by them in pre-order. -/
theorem pairwise_reached (n : Node) : n.reached.Pairwise (· < ·) := by
  cases n with
  | mk kind named field start stop cs =>
    rw [reached]
    exact pairwise_reachedFrom 0 cs

theorem pairwise_reachedFrom (i : Nat) (cs : List Node) : (reachedFrom i cs).Pairwise (· < ·) := by
  cases cs with
  | nil =>
    rw [reachedFrom]
    exact .nil
  | cons c rest =>
    have hchild : (if c.named then [i] :: c.reached.map (i :: ·) else []).Pairwise (· < ·) := by
      split
      · refine List.pairwise_cons.2 ⟨fun path hpath => ?_, ?_⟩
        · obtain ⟨p, hp, rfl⟩ := List.mem_map.1 hpath
          obtain ⟨j, q, rfl⟩ := List.exists_cons_of_ne_nil (ne_nil_of_mem_reached hp)
          exact List.cons_lt_cons_iff.2 (.inr ⟨rfl, List.nil_lt_cons j q⟩)
        · exact List.pairwise_map.2 ((pairwise_reached c).imp fun h => List.cons_lt_cons_iff.2 (.inr ⟨rfl, h⟩))
      · exact .nil
    rw [reachedFrom]
    refine List.pairwise_append.2 ⟨hchild, pairwise_reachedFrom (i + 1) rest, fun p hp q hq => ?_⟩
    obtain ⟨j, d, q', rfl, -⟩ := mem_reachedFrom.1 hq
    obtain ⟨p', rfl⟩ : ∃ p', p = i :: p' := by
      split at hp
      · rcases List.mem_cons.1 hp with rfl | hp
        · exact ⟨[], rfl⟩
        · obtain ⟨p', -, rfl⟩ := List.mem_map.1 hp
          exact ⟨p', rfl⟩
      · cases hp
    exact List.cons_lt_cons_iff.2 (.inl (by omega))

end

/-- The siblings before the node at an address, the nearest first; `own` are those before `n`. -/
def siblingsBefore (own : List Node) (n : Node) : List Nat → List Node
  | [] => own
  | i :: path => ((n.children[i]?).map fun c => siblingsBefore (n.children.take i).reverse c path).getD []

end Syntax.Node

namespace Chunk.Survey

open Syntax

variable {s : Survey} {own : List Node} {n c : Node} {path : List Nat}

/-- The documentation of the node `d` at an address. -/
def docAt? (s : Survey) (own : List Node) (n : Node) (path : List Nat) (d : Node) : Option Doc :=
  (n.nodeAt? path.dropLast).bind fun parent =>
    leadingDoc? s.source s.language ⟨parent, n.siblingsBefore own path.dropLast, n.siblingsBefore own path⟩ d

/-- A declaration that bounds a chunk, unless another one holds it. -/
def isBound (s : Survey) (n : Node) : Bool := s.isChunkable n && s.isLarge n

/-- Whether a node on the way to an address bounds a chunk. -/
def isHeld (s : Survey) (n : Node) : List Nat → Bool
  | [] => false
  | i :: path => path != [] && (n.children[i]?).any fun c => s.isBound c || s.isHeld c path

/-- The symbol that the node at an address records, if it is one. -/
def symbolAt? (s : Survey) (own : List Node) (n : Node) (path : List Nat) : Option Symbol :=
  (n.nodeAt? path).bind fun d =>
    if s.isChunkable d && d.kind != "decorated_definition" then some (s.symbolOf (s.docAt? own n path d) d) else none

/-- The region of the node at an address, if it has one of its own. -/
def regionAt? (s : Survey) (own : List Node) (n : Node) (path : List Nat) : Option Region :=
  (n.nodeAt? path).bind fun d =>
    if s.isBound d && !s.isHeld n path then some (s.regionOf (s.docAt? own n path d) d) else none

/-- A node is held just when some node that it lies in bounds a chunk. -/
theorem isHeld_iff : s.isHeld n path = true ↔
    ∃ q m, q ≠ [] ∧ q ≠ path ∧ q <+: path ∧ n.nodeAt? q = some m ∧ s.isBound m = true := by
  induction path generalizing n with
  | nil =>
    refine ⟨fun h => Bool.noConfusion h, fun ⟨q, m, hq, hne, hp, _⟩ => absurd (List.prefix_nil.1 hp) hq⟩
  | cons i path ih =>
    simp only [isHeld, Bool.and_eq_true, bne_iff_ne, Option.any_eq_true, Bool.or_eq_true]
    constructor
    · rintro ⟨hpath, c, hc, hb | hh⟩
      · exact ⟨[i], c, List.cons_ne_nil _ _, fun he => hpath (List.cons.inj he).2.symm, ⟨path, rfl⟩,
          Node.nodeAt?_cons hc [], hb⟩
      · obtain ⟨q, m, hq, hne, hp, hm, hb⟩ := ih.1 hh
        exact ⟨i :: q, m, List.cons_ne_nil _ _, fun he => hne (List.cons.inj he).2, (List.prefix_cons_inj i).2 hp,
          (Node.nodeAt?_cons hc q).trans hm, hb⟩
    · rintro ⟨q, m, hq, hne, hp, hm, hb⟩
      obtain ⟨j, q, rfl⟩ := List.exists_cons_of_ne_nil hq
      obtain ⟨rfl, hrest⟩ := List.cons_prefix_cons.1 hp
      obtain ⟨c, hc, hm⟩ := Option.bind_eq_some_iff.1 hm
      have hqpath : q ≠ path := fun he => hne (he ▸ rfl)
      refine ⟨fun hpath => hqpath ?_, c, hc, ?_⟩
      · rw [hpath] at hrest ⊢
        exact List.prefix_nil.1 hrest
      · by_cases hq' : q = []
        · subst hq'
          exact .inl (Option.some.inj hm ▸ hb)
        · exact .inr (ih.2 ⟨q, m, hq', hqpath, hrest, hm, hb⟩)

section

variable {i : Nat}

theorem docAt?_singleton (hc : n.children[i]? = some c) (d : Node) :
    s.docAt? own n [i] d = leadingDoc? s.source s.language ⟨n, own, (n.children.take i).reverse⟩ d := by
  have hbefore : n.siblingsBefore own [i] = (n.children.take i).reverse := by
    simp only [Node.siblingsBefore, hc, Option.map_some, Option.getD_some]
  rw [docAt?, hbefore]
  rfl

/-- What is at an address is at the rest of it below a child. -/
theorem docAt?_cons (hc : n.children[i]? = some c) (hpath : path ≠ []) (d : Node) :
    s.docAt? own n (i :: path) d = s.docAt? (n.children.take i).reverse c path d := by
  have hbefore : ∀ q, n.siblingsBefore own (i :: q) = c.siblingsBefore (n.children.take i).reverse q := by
    intro q
    simp only [Node.siblingsBefore, hc, Option.map_some, Option.getD_some]
  rw [docAt?, docAt?, List.dropLast_cons_of_ne_nil hpath, Node.nodeAt?_cons hc, hbefore, hbefore]

theorem symbolAt?_singleton (hc : n.children[i]? = some c) :
    s.symbolAt? own n [i] =
      if s.isChunkable c && c.kind != "decorated_definition" then
        some (s.symbolOf (leadingDoc? s.source s.language ⟨n, own, (n.children.take i).reverse⟩ c) c)
      else none := by
  rw [symbolAt?, Node.nodeAt?_cons hc, Node.nodeAt?, Option.bind_some, docAt?_singleton hc]

theorem symbolAt?_cons (hc : n.children[i]? = some c) (hpath : path ≠ []) :
    s.symbolAt? own n (i :: path) = s.symbolAt? (n.children.take i).reverse c path := by
  simp only [symbolAt?, Node.nodeAt?_cons hc, docAt?_cons hc hpath]

theorem regionAt?_singleton (hc : n.children[i]? = some c) :
    s.regionAt? own n [i] =
      if s.isBound c then
        some (s.regionOf (leadingDoc? s.source s.language ⟨n, own, (n.children.take i).reverse⟩ c) c)
      else none := by
  have hheld : s.isHeld n [i] = false := rfl
  rw [regionAt?, Node.nodeAt?_cons hc, Node.nodeAt?, Option.bind_some, docAt?_singleton hc, hheld, Bool.not_false,
    Bool.and_true]

/-- Nothing below a child that bounds a chunk has a region of its own. -/
theorem regionAt?_cons (hc : n.children[i]? = some c) (hpath : path ≠ []) :
    s.regionAt? own n (i :: path) =
      if s.isBound c then none else s.regionAt? (n.children.take i).reverse c path := by
  have hheld : s.isHeld n (i :: path) = (s.isBound c || s.isHeld c path) := by
    simp only [isHeld, hc, Option.any_some, bne_iff_ne.2 hpath, Bool.true_and]
  simp only [regionAt?, Node.nodeAt?_cons hc, docAt?_cons hc hpath, hheld]
  cases s.isBound c
  · rfl
  · simp

end

/-- What the search adds to its findings for some addresses. -/
structure Adds (s : Survey) (own : List Node) (n : Node) (inside : Bool) (f : Findings) (paths : List (List Nat))
    (f' : Findings) : Prop where
  symbols : f'.symbols = (paths.filterMap (s.symbolAt? own n)).reverse ++ f.symbols
  regions : f'.regions = (if inside then [] else (paths.filterMap (s.regionAt? own n)).reverse) ++ f.regions

namespace Adds

variable {inside : Bool} {f f' f'' : Findings} {paths paths' : List (List Nat)} {i : Nat}

theorem refl (s : Survey) (own : List Node) (n : Node) (inside : Bool) (f : Findings) : s.Adds own n inside f [] f :=
  ⟨rfl, by cases inside <;> rfl⟩

theorem trans (h : s.Adds own n inside f paths f') (h' : s.Adds own n inside f' paths' f'') :
    s.Adds own n inside f (paths ++ paths') f'' := by
  refine ⟨?_, ?_⟩
  · rw [h'.symbols, h.symbols, List.filterMap_append, List.reverse_append, List.append_assoc]
  · rw [h'.regions, h.regions]
    cases inside
    · simp only [Bool.false_eq_true, if_false, List.filterMap_append, List.reverse_append, List.append_assoc]
    · rfl

/-- A child that is chunkable is recorded at its place. -/
theorem record (hc : n.children[i]? = some c) (hk : s.isChunkable c = true) (inside : Bool) (f : Findings) :
    s.Adds own n inside f [[i]] (s.record ⟨n, own, (n.children.take i).reverse⟩ inside c f) := by
  have hbound : s.isBound c = s.isLarge c := by rw [isBound, hk, Bool.true_and]
  refine ⟨?_, ?_⟩
  · simp only [Survey.record, List.filterMap_cons, List.filterMap_nil, symbolAt?_singleton hc, hk, Bool.true_and, bne]
    cases c.kind == "decorated_definition" <;> rfl
  · simp only [Survey.record, List.filterMap_cons, List.filterMap_nil, regionAt?_singleton hc, hbound]
    cases inside <;> cases s.isLarge c <;> rfl

theorem skip (hc : n.children[i]? = some c) (hk : s.isChunkable c = false) (inside : Bool) (f : Findings) :
    s.Adds own n inside f [[i]] f := by
  have hbound : s.isBound c = false := by rw [isBound, hk, Bool.false_and]
  refine ⟨?_, ?_⟩
  · simp [symbolAt?_singleton hc, hk]
  · simp [regionAt?_singleton hc, hbound]

/-- What is added below a child, told from its parent. -/
theorem child (hc : n.children[i]? = some c) (hpaths : ∀ path ∈ paths, path ≠ [])
    (h : s.Adds (n.children.take i).reverse c (inside || s.isBound c) f paths f') :
    s.Adds own n inside f (paths.map (i :: ·)) f' := by
  have hsymbols : (paths.map (i :: ·)).filterMap (s.symbolAt? own n) =
      paths.filterMap (s.symbolAt? (n.children.take i).reverse c) := by
    rw [List.filterMap_map]
    exact List.filterMap_congr fun path hpath => symbolAt?_cons hc (hpaths path hpath)
  have hregions : (paths.map (i :: ·)).filterMap (s.regionAt? own n) =
      paths.filterMap fun path => if s.isBound c then none else s.regionAt? (n.children.take i).reverse c path := by
    rw [List.filterMap_map]
    exact List.filterMap_congr fun path hpath => regionAt?_cons hc (hpaths path hpath)
  refine ⟨?_, ?_⟩
  · rw [h.symbols, hsymbols]
  · rw [h.regions, hregions]
    cases inside <;> cases s.isBound c <;> simp

end Adds

mutual

/-- The search finds what stands at the addresses that it comes by. -/
theorem adds_below (s : Survey) (own : List Node) (inside : Bool) (f : Findings) (n : Node) :
    s.Adds own n inside f n.reached (s.below own inside f n) := by
  cases n with
  | mk kind named field start stop cs =>
    rw [Node.reached, below]
    exact adds_among s (.mk kind named field start stop cs) own inside f [] cs rfl

theorem adds_among (s : Survey) (parent : Node) (own : List Node) (inside : Bool) (f : Findings) (passed cs : List Node)
    (h : parent.children = passed.reverse ++ cs) :
    s.Adds own parent inside f (Node.reachedFrom passed.length cs) (s.among parent own inside f passed cs) := by
  cases cs with
  | nil =>
    rw [Node.reachedFrom, among]
    exact .refl s own parent inside f
  | cons c rest =>
    have hc : parent.children[passed.length]? = some c := by
      rw [h, List.getElem?_append_right (by simp), List.length_reverse, Nat.sub_self, List.getElem?_cons_zero]
    have hpassed : (parent.children.take passed.length).reverse = passed := by
      rw [h, List.take_left' (List.length_reverse ..), List.reverse_reverse]
    have hrest : parent.children = (c :: passed).reverse ++ rest := by
      rw [h, List.reverse_cons, List.append_assoc, List.singleton_append]
    have hbelow : ∀ g, s.Adds own parent inside g (c.reached.map (passed.length :: ·))
        (s.below passed (inside || s.isBound c) g c) := fun g =>
      .child hc (fun _ => Node.ne_nil_of_mem_reached) (hpassed.symm ▸ adds_below s passed (inside || s.isBound c) g c)
    rw [Node.reachedFrom, among]
    refine Adds.trans ?_ (adds_among s parent own inside _ (c :: passed) rest hrest)
    cases hn : c.named with
    | false => exact .refl s own parent inside f
    | true =>
      cases hk : s.isChunkable c with
      | false =>
        have hbound : s.isBound c = false := by rw [isBound, hk, Bool.false_and]
        have hskip : s.Adds own parent inside f _ _ := (Adds.skip hc hk inside f).trans (hbelow f)
        rw [hbound, Bool.or_false] at hskip
        exact hskip
      | true =>
        have hbound : s.isBound c = s.isLarge c := by rw [isBound, hk, Bool.true_and]
        have hrecord : s.Adds own parent inside f _ _ := (Adds.record hc hk inside f).trans (hbelow _)
        rw [hbound, hpassed] at hrecord
        exact hrecord

end

theorem forall₂_filterMap {α β : Type} (f : α → Option β) (xs : List α) :
    List.Forall₂ (fun x y => f x = some y) (xs.filter fun x => (f x).isSome) (xs.filterMap f) := by
  induction xs with
  | nil => exact .nil
  | cons x xs ih =>
    cases hx : f x with
    | none => rwa [List.filterMap_cons_none hx, List.filter_cons_of_neg (by simp [hx])]
    | some y =>
      rw [List.filterMap_cons_some hx, List.filter_cons_of_pos (by simp [hx])]
      exact .cons hx ih

theorem symbolAt?_eq_some {symbol : Symbol} : s.symbolAt? own n path = some symbol ↔
    ∃ d, n.nodeAt? path = some d ∧ (s.isChunkable d = true ∧ d.kind ≠ "decorated_definition") ∧
      s.symbolOf (s.docAt? own n path d) d = symbol := by
  rw [symbolAt?, Option.bind_eq_some_iff]
  simp [Option.ite_none_right_eq_some]

theorem regionAt?_eq_some {region : Region} : s.regionAt? own n path = some region ↔
    ∃ d, n.nodeAt? path = some d ∧ (s.isBound d = true ∧ s.isHeld n path = false) ∧
      s.regionOf (s.docAt? own n path d) d = region := by
  rw [regionAt?, Option.bind_eq_some_iff]
  simp [Option.ite_none_right_eq_some]

theorem declarations_eq (s : Survey) (root : Node) :
    s.declarations root =
      (root.reached.filterMap (s.symbolAt? [] root), root.reached.filterMap (s.regionAt? [] root)) := by
  have hadds := adds_below s [] false {} root
  simp only [declarations, hadds.symbols, hadds.regions, Bool.false_eq_true, if_false, List.append_nil,
    List.reverse_reverse]

/-- The addresses of the symbols, in pre-order. -/
def symbolPaths (s : Survey) (root : Node) : List (List Nat) :=
  root.reached.filter fun path => (s.symbolAt? [] root path).isSome

/-- The addresses of the regions, in pre-order. -/
def regionPaths (s : Survey) (root : Node) : List (List Nat) :=
  root.reached.filter fun path => (s.regionAt? [] root path).isSome

/-- Whatever is on the way to a node that is reached is reached as well. -/
theorem reaches_ancestor {root d m : Node} {path q : List Nat} (h : root.Reaches path d) (hq : q ≠ [])
    (hp : q <+: path) (hm : root.nodeAt? q = some m) : root.Reaches q m :=
  ⟨hq, hm, fun q' m' hq' hp' => h.named q' m' hq' (hp'.trans hp)⟩

theorem mem_symbolPaths {root : Node} : path ∈ s.symbolPaths root ↔
    ∃ d, root.Reaches path d ∧ s.isChunkable d = true ∧ d.kind ≠ "decorated_definition" := by
  rw [symbolPaths, List.mem_filter, Node.mem_reached, Option.isSome_iff_exists]
  simp only [symbolAt?_eq_some]
  constructor
  · rintro ⟨⟨d, hd⟩, symbol, d', hd', h, -⟩
    obtain rfl : d = d' := Option.some.inj (hd.found.symm.trans hd')
    exact ⟨d, hd, h⟩
  · rintro ⟨d, hd, h⟩
    exact ⟨⟨d, hd⟩, _, d, hd.found, h, rfl⟩

theorem mem_regionPaths {root : Node} : path ∈ s.regionPaths root ↔
    ∃ d, root.Reaches path d ∧ s.isChunkable d = true ∧ s.isLarge d = true ∧
      ∀ q m, root.Reaches q m → q <+: path → q ≠ path → s.isChunkable m = true → s.isLarge m = false := by
  rw [regionPaths, List.mem_filter, Node.mem_reached, Option.isSome_iff_exists]
  simp only [regionAt?_eq_some, isBound, Bool.and_eq_true]
  constructor
  · rintro ⟨⟨d, hd⟩, region, d', hd', ⟨⟨hk, hl⟩, hheld⟩, -⟩
    obtain rfl : d = d' := Option.some.inj (hd.found.symm.trans hd')
    refine ⟨d, hd, hk, hl, fun q m hm hp hne hmk => ?_⟩
    by_contra hml
    rw [Bool.not_eq_false] at hml
    rw [← Bool.not_eq_true] at hheld
    exact hheld (isHeld_iff.2 ⟨q, m, hm.below, hne, hp, hm.found, by rw [isBound, hmk, hml, Bool.and_self]⟩)
  · rintro ⟨d, hd, hk, hl, hfree⟩
    refine ⟨⟨d, hd⟩, _, d, hd.found, ⟨⟨hk, hl⟩, ?_⟩, rfl⟩
    rw [← Bool.not_eq_true, isHeld_iff]
    rintro ⟨q, m, hq, hne, hp, hm, hb⟩
    obtain ⟨hmk, hml⟩ := Bool.and_eq_true_iff.1 hb
    rw [hfree q m (reaches_ancestor hd hq hp hm) hp hne hmk] at hml
    exact Bool.noConfusion hml

/-- A region that another lies in would hold it. -/
theorem eq_of_prefix_regionPaths {root : Node} {p q : List Nat} (hp : p ∈ s.regionPaths root)
    (hq : q ∈ s.regionPaths root) (hpq : p <+: q) : p = q := by
  obtain ⟨m, hm, hmk, hml, -⟩ := mem_regionPaths.1 hp
  obtain ⟨d, hd, -, -, hfree⟩ := mem_regionPaths.1 hq
  by_contra hne
  rw [hfree p m hm hpq hne hmk] at hml
  exact Bool.noConfusion hml

/-- Large is what has more than ten lines, or more than a hundred characters. -/
theorem isLarge_iff : s.isLarge n = true ↔
    10 < (nodeLines s.source s.lineCount n).2 - (nodeLines s.source s.lineCount n).1 + 1 ∨
      100 < (n.text s.source).length := by
  rw [isLarge, Bool.or_eq_true, decide_eq_true_iff, decide_eq_true_iff]
  rfl

/-- The symbols are just the declarations that can be reached through named nodes, decorated definitions apart, and the
regions just the large ones that lie in no other large one; both are found in pre-order, and no region lies in
another. -/
theorem declarations_exact (s : Survey) (root : Node) :
    ∃ symbols regions : List (List Nat),
      List.Forall₂ (fun path symbol => ∃ d, root.nodeAt? path = some d ∧
        s.symbolOf (s.docAt? [] root path d) d = symbol) symbols (s.declarations root).1 ∧
      List.Forall₂ (fun path region => ∃ d, root.nodeAt? path = some d ∧
        s.regionOf (s.docAt? [] root path d) d = region) regions (s.declarations root).2 ∧
      symbols.Pairwise (· < ·) ∧ regions.Pairwise (· < ·) ∧
      (∀ path, path ∈ symbols ↔ ∃ d, root.Reaches path d ∧ s.isChunkable d = true ∧
        d.kind ≠ "decorated_definition") ∧
      (∀ path, path ∈ regions ↔ ∃ d, root.Reaches path d ∧ s.isChunkable d = true ∧ s.isLarge d = true ∧
        ∀ q m, root.Reaches q m → q <+: path → q ≠ path → s.isChunkable m = true → s.isLarge m = false) ∧
      (∀ p ∈ regions, ∀ q ∈ regions, p <+: q → p = q) ∧
      ∀ d, s.isLarge d = true ↔ 10 < (nodeLines s.source s.lineCount d).2 - (nodeLines s.source s.lineCount d).1 + 1 ∨
        100 < (d.text s.source).length := by
  have hsymbols := forall₂_filterMap (s.symbolAt? [] root) root.reached
  have hregions := forall₂_filterMap (s.regionAt? [] root) root.reached
  rw [declarations_eq]
  refine ⟨s.symbolPaths root, s.regionPaths root, hsymbols.imp fun path symbol h => ?_,
    hregions.imp fun path region h => ?_, (Node.pairwise_reached root).filter _, (Node.pairwise_reached root).filter _,
    fun _ => mem_symbolPaths, fun _ => mem_regionPaths, fun _ hp _ hq => eq_of_prefix_regionPaths hp hq,
    fun _ => isLarge_iff⟩
  · obtain ⟨d, hd, -, he⟩ := symbolAt?_eq_some.1 h
    exact ⟨d, hd, he⟩
  · obtain ⟨d, hd, -, he⟩ := regionAt?_eq_some.1 h
    exact ⟨d, hd, he⟩

/-- A decorated definition bounds a chunk, called after the kind of what it wraps, and the symbol is that of the wrapped
definition. -/
example :
    let text := String.ofList (List.replicate 12 '\n')
    let wrapped : Node := .mk "function_definition" true (some .definition) 0 11 []
    let found := declarations ⟨.ofString text, .python, 12⟩
      (.mk "module" true none 0 12 [.mk "decorated_definition" true none 0 11 [wrapped]])
    found.1.map (·.kind) = ["function_definition"] ∧ found.2.map (·.kind) = ["function_definition"] := by
  decide +kernel

end Chunk.Survey

end CodeIndex
