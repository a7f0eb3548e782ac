import Mathlib
import SparseGraph.Proofs.Graph.EdgeOrder
import SparseGraph.Proofs.Graph.PairOrder

namespace SparseGraph

open Text (maxWord)

/-!
# Merging edges of both directions

Sorting the edges of both directions brings those with the same ends together, the lightest first. The
first of each run is kept, so the merged edges are the lightest between their ends, each pair of ends
once. They are in order already, so merging a second time changes nothing.

* `mem_mergedEdges_iff`, `pairwise_mergedEdges` — which edges are merged ones, and their order;
* `edges_of_symmetrized`, `symmetrized_of_symmetrized` — the edges of a symmetrized graph, which is
  its own symmetrized graph;
* `exists_card_linkedPairs_eq` — a graph with more pairs of linked vertices than words can count;
* `symmetrized_merges` — when symmetrizing succeeds, and what it makes of a graph.
-/

@[simp] theorem Edge.ends_reverse (e : Edge) : e.reverse.ends = e.ends.swap := rfl

namespace Graph

/-! ### What is merged -/

/-- The pairs of vertices between which there is an edge in either direction. -/
def linkedPairs (g : Graph) : Finset (UInt32 × UInt32) :=
  (g.pairs ++ g.pairs.map Prod.swap).toFinset

/-- The weights of the edges between two vertices in either direction. -/
def weightsBetween (g : Graph) (a b : UInt32) : Set UInt32 :=
  {w | ⟨a, b, w⟩ ∈ g.edges ∨ ⟨b, a, w⟩ ∈ g.edges}

variable {g s : Graph} {e f : Edge}

theorem mem_linkedPairs {p : UInt32 × UInt32} :
    p ∈ g.linkedPairs ↔ ∃ e ∈ g.edges, e.ends = p ∨ e.reverse.ends = p := by
  rw [linkedPairs, List.mem_toFinset, List.mem_append, mem_map_swap, pairs, List.mem_map,
    List.mem_map, ← exists_or]
  refine exists_congr fun e => ?_
  rw [← and_or_left, Edge.ends_reverse, Prod.swap_eq_iff_eq_swap]

theorem weightsBetween_comm (g : Graph) (a b : UInt32) :
    g.weightsBetween a b = g.weightsBetween b a :=
  Set.ext fun _ => or_comm

/-- The list that is merged holds the edges of both directions. -/
theorem mem_bothDirections :
    e ∈ (g.edges.flatMap fun e => [e, e.reverse]) ↔
      e.weight ∈ g.weightsBetween e.source e.target := by
  show _ ↔ e ∈ g.edges ∨ e.reverse ∈ g.edges
  simp only [List.mem_flatMap, List.mem_cons, List.not_mem_nil, or_false]
  constructor
  · rintro ⟨f, hf, rfl | rfl⟩
    · exact .inl hf
    · exact .inr hf
  · rintro (he | he)
    · exact ⟨e, he, .inl rfl⟩
    · exact ⟨e.reverse, he, .inr rfl⟩

theorem sameEnds_iff_pairKey (e f : Edge) :
    sameEnds e f = true ↔ pairKey e.ends = pairKey f.ends := by
  rw [sameEnds_iff, pairKey_inj]

/-- The edges of both directions in order. -/
theorem pairwise_bothDirections (g : Graph) :
    ((g.edges.flatMap fun e => [e, e.reverse]).mergeSort edgeLe).Pairwise
      (edgeKey · ≤ edgeKey ·) := by
  rw [edgeLe_eq_keyLE]
  exact pairwise_mergeSort_key edgeKey _

/-- Merged edges are ordered by their ends, and no two have the same ends. -/
theorem pairwise_mergedEdges (g : Graph) :
    g.mergedEdges.Pairwise (pairKey ·.ends < pairKey ·.ends) :=
  pairwise_firsts sameEnds_iff_pairKey ((pairwise_bothDirections g).imp pairKey_ends_le)

/-- A merged edge is no heavier than any edge between its ends. -/
theorem weight_le_of_mem_mergedEdges (he : e ∈ g.mergedEdges) {w : UInt32}
    (hw : w ∈ g.weightsBetween e.source e.target) : e.weight ≤ w := by
  have hsorted := pairwise_bothDirections g
  obtain ⟨before, after, heq, hne⟩ :=
    exists_append_of_mem_firsts sameEnds_iff_pairKey (hsorted.imp pairKey_ends_le) he
  have hmem : ⟨e.source, e.target, w⟩ ∈ before ++ e :: after := by
    rw [← heq, List.mem_mergeSort]
    exact mem_bothDirections.2 hw
  rcases List.mem_append.1 hmem with hbefore | hafter
  · exact (hne _ hbefore rfl).elim
  · rcases List.mem_cons.1 hafter with hself | hafter
    · rw [← hself]
      exact UInt32.le_refl _
    · rw [heq] at hsorted
      have hle : edgeKey e ≤ edgeKey ⟨e.source, e.target, w⟩ :=
        (List.pairwise_cons.1 (List.pairwise_append.1 hsorted).2.1).1 _ hafter
      -- The ends are the same, so the weights decide.
      exact UInt32.le_iff_toNat_le.2 (Nat.le_of_add_le_add_left hle)

/-- **The merged edges** are those with the least weight between their ends. -/
theorem mem_mergedEdges_iff :
    e ∈ g.mergedEdges ↔ IsLeast (g.weightsBetween e.source e.target) e.weight := by
  constructor
  · intro he
    refine ⟨mem_bothDirections.1 (List.mem_mergeSort.1 (mem_of_mem_firsts he)), fun w hw => ?_⟩
    exact weight_le_of_mem_mergedEdges he hw
  · rintro ⟨hmem, hleast⟩
    obtain ⟨k, hk, hends⟩ := exists_mem_firsts sameEnds_iff
      (List.mem_mergeSort.2 (mem_bothDirections.2 hmem) :
        e ∈ (g.edges.flatMap fun e => [e, e.reverse]).mergeSort edgeLe)
    obtain ⟨source, target, weight⟩ := k
    obtain ⟨rfl, rfl⟩ := Prod.mk.inj hends
    -- What is kept between these ends is as light as `e`.
    have hkept := mem_bothDirections.1 (List.mem_mergeSort.1 (mem_of_mem_firsts hk))
    have hweight : weight = e.weight :=
      UInt32.le_antisymm (weight_le_of_mem_mergedEdges hk hmem) (hleast hkept)
    rw [hweight] at hk
    exact hk

theorem nodup_ends_mergedEdges (g : Graph) : (g.mergedEdges.map Edge.ends).Nodup :=
  List.pairwise_map.2 ((pairwise_mergedEdges g).imp fun hlt heq =>
    Nat.ne_of_lt hlt (congrArg pairKey heq))

/-- Merged edges are as many as the pairs they join. -/
theorem length_mergedEdges (g : Graph) : g.mergedEdges.length = g.linkedPairs.card := by
  have hset : (g.mergedEdges.map Edge.ends).toFinset = g.linkedPairs := by
    ext p
    rw [List.mem_toFinset, List.mem_map, exists_mem_mergedEdges_iff, mem_linkedPairs]
  rw [← hset, List.toFinset_card_of_nodup (nodup_ends_mergedEdges g), List.length_map]

/-! ### The symmetrized graph -/

/-- Merging keeps to the vertices of the graph. -/
theorem firstStray?_mergedEdges (hn : g.numNodes ≤ maxWord) :
    firstStray? g.numNodes g.mergedEdges = none := by
  refine firstStray?_eq_none_iff.2 fun e he => ?_
  rcases (mem_mergedEdges_iff.1 he).1 with hmem | hmem
  · exact ends_lt_of_mem_edges hn hmem
  · exact (ends_lt_of_mem_edges hn hmem).symm

/-- **The edges of a symmetrized graph** are the merged edges. -/
theorem edges_of_symmetrized (h : g.symmetrized = .ok s) : s.edges = g.mergedEdges := by
  rw [edges_of_ofEdges h]
  refine List.mergeSort_of_pairwise ((pairwise_mergedEdges g).imp fun {e f} hlt => keyLE_iff.2 ?_)
  exact fst_le_of_pairKey_lt hlt

theorem weightsBetween_of_symmetrized (h : g.symmetrized = .ok s) {a b w : UInt32} :
    w ∈ s.weightsBetween a b ↔ IsLeast (g.weightsBetween a b) w := by
  show _ ∈ s.edges ∨ _ ∈ s.edges ↔ _
  rw [edges_of_symmetrized h, mem_mergedEdges_iff, mem_mergedEdges_iff, weightsBetween_comm g b a,
    or_self]

/-- **Symmetrizing again changes nothing.** -/
theorem symmetrized_of_symmetrized (h : g.symmetrized = .ok s) : s.symmetrized = .ok s := by
  have hmerged : s.mergedEdges = s.edges := by
    rw [edges_of_symmetrized h]
    refine eq_of_ascending (pairwise_mergedEdges s) (pairwise_mergedEdges g) fun e => ?_
    rw [mem_mergedEdges_iff, mem_mergedEdges_iff]
    constructor
    · exact fun he => (weightsBetween_of_symmetrized h).1 he.1
    · intro he
      refine ⟨(weightsBetween_of_symmetrized h).2 he, fun w hw => ?_⟩
      exact he.2 ((weightsBetween_of_symmetrized h).1 hw).1
  unfold symmetrized
  rw [hmerged]
  exact ofEdges_edges (numNodes_le_of_ofEdges h)

/-- **Too many pairs** of linked vertices are the only fault. -/
theorem symmetrized_eq_error (hn : g.numNodes ≤ maxWord) (hmany : maxWord < g.linkedPairs.card) :
    g.symmetrized = .error (.tooLarge g.linkedPairs.card) := by
  unfold symmetrized ofEdges
  rw [← length_mergedEdges] at hmany ⊢
  rw [if_neg (Nat.not_lt.2 hn), dif_pos hmany]

theorem exists_symmetrized_iff (hn : g.numNodes ≤ maxWord) :
    (∃ s, g.symmetrized = .ok s) ↔ g.linkedPairs.card ≤ maxWord := by
  unfold symmetrized
  rw [exists_ofEdges_iff, length_mergedEdges]
  exact ⟨fun h => h.2.1, fun hm => ⟨hn, hm, firstStray?_mergedEdges hn⟩⟩

/-- What symmetrizing makes of a graph. -/
structure IsSymmetrization (g s : Graph) : Prop where
  numNodes_eq : s.numNodes = g.numNodes
  /-- No two edges have the same ends. -/
  nodup_pairs : s.pairs.Nodup
  /-- There is an edge where the graph has one in either direction. -/
  mem_pairs_iff : ∀ p, p ∈ s.pairs ↔ p ∈ g.linkedPairs
  /-- Its weight is the least of these. -/
  isLeast_weight : ∀ e ∈ s.edges, IsLeast (g.weightsBetween e.source e.target) e.weight
  /-- The edges out of a vertex are ordered by target. -/
  ascending : ∀ v, (s.arcs v).Pairwise (·.target < ·.target)
  isSymmetric : s.isSymmetric = true
  /-- Both directions weigh the same. -/
  weight_back : ∀ e ∈ s.edges, ∀ f ∈ s.edges, f.ends = e.ends.swap → f.weight = e.weight
  symmetrized_again : s.symmetrized = .ok s

/-- Of the edges of a symmetrized graph each has its edge back. -/
theorem reverse_mem_of_symmetrized (h : g.symmetrized = .ok s) (he : e ∈ s.edges) :
    e.reverse ∈ s.edges := by
  rw [edges_of_symmetrized h, mem_mergedEdges_iff] at he ⊢
  rw [weightsBetween_comm]
  exact he

theorem nodup_pairs_of_symmetrized (h : g.symmetrized = .ok s) : s.pairs.Nodup := by
  rw [pairs, edges_of_symmetrized h]
  exact nodup_ends_mergedEdges g

/-- The targets of a vertex ascend. -/
theorem pairwise_arcs_of_symmetrized (h : g.symmetrized = .ok s) (v : Nat) :
    (s.arcs v).Pairwise (·.target < ·.target) :=
  (pairwise_arcs_of_ofEdges Nat.lt_of_add_lt_add_left h (pairwise_mergedEdges g) v).imp
    UInt32.lt_iff_toNat_lt.2

theorem isSymmetrization_of_symmetrized (h : g.symmetrized = .ok s) : g.IsSymmetrization s where
  numNodes_eq := numNodes_symmetrized h
  nodup_pairs := nodup_pairs_of_symmetrized h
  mem_pairs_iff p := by
    rw [pairs, edges_of_symmetrized h, List.mem_map, exists_mem_mergedEdges_iff, mem_linkedPairs]
  isLeast_weight e he := by
    rw [edges_of_symmetrized h] at he
    exact mem_mergedEdges_iff.1 he
  ascending v := pairwise_arcs_of_symmetrized h v
  isSymmetric := by
    refine isSymmetric_iff.2 fun p hp => ?_
    obtain ⟨e, he, rfl⟩ := List.mem_map.1 hp
    exact List.mem_map.2 ⟨e.reverse, reverse_mem_of_symmetrized h he, rfl⟩
  weight_back e he f hf hends := by
    have hback := reverse_mem_of_symmetrized h he
    have heq : f = e.reverse :=
      List.inj_on_of_nodup_map (nodup_pairs_of_symmetrized h) hf hback hends
    rw [heq]
    rfl
  symmetrized_again := symmetrized_of_symmetrized h

/-! ### More pairs than words can count -/

/-- Every edge counts twice if there are neither parallel edges nor edges back. -/
theorem card_linkedPairs (hn : g.numNodes ≤ maxWord) (hnodup : g.pairs.Nodup)
    (hback : ∀ p ∈ g.pairs, p.swap ∉ g.pairs) : g.linkedPairs.card = 2 * g.numEdges := by
  have hall : (g.pairs ++ g.pairs.map Prod.swap).Nodup := by
    refine List.nodup_append.2 ⟨hnodup, hnodup.map Prod.swap_injective, fun p hp q hq heq => ?_⟩
    rw [← heq, mem_map_swap] at hq
    exact hback p hp hq
  rw [linkedPairs, List.toFinset_card_of_nodup hall, List.length_append, List.length_map, pairs,
    List.length_map, length_edges hn, Nat.two_mul]

/-- The edges from vertex 0 to the `k` vertices that follow it. -/
def spokes (k : Nat) : List Edge :=
  (List.range k).map fun i => ⟨0, UInt32.ofNat (i + 1), 1⟩

theorem toNat_tip {k i : Nat} (hk : k < maxWord) (hi : i < k) :
    (UInt32.ofNat (i + 1)).toNat = i + 1 := by
  apply UInt32.toNat_ofNat_of_lt'
  unfold maxWord at hk
  simp only [UInt32.size]
  omega

theorem nodup_ends_spokes {k : Nat} (hk : k < maxWord) : ((spokes k).map Edge.ends).Nodup := by
  unfold spokes
  rw [List.map_map]
  refine List.Nodup.map_on (fun i hi j hj heq => ?_) List.nodup_range
  have htip := congrArg UInt32.toNat (Prod.mk.inj heq).2
  rw [toNat_tip hk (List.mem_range.1 hi), toNat_tip hk (List.mem_range.1 hj)] at htip
  exact Nat.succ.inj htip

theorem card_linkedPairs_spokes {k : Nat} (hk : k < maxWord)
    (h : ofEdges (k + 1) (spokes k) = .ok g) : g.linkedPairs.card = 2 * k := by
  have hperm : g.pairs.Perm ((spokes k).map Edge.ends) := by
    rw [pairs, edges_of_ofEdges h]
    exact (List.mergeSort_perm _ _).map Edge.ends
  have hcount : g.numEdges = k := by
    rw [numEdges_of_ofEdges h, spokes, List.length_map, List.length_range]
  have hmem {p : UInt32 × UInt32} (hp : p ∈ g.pairs) : p.1 = 0 ∧ p.2 ≠ 0 := by
    obtain ⟨e, he, rfl⟩ := List.mem_map.1 (hperm.mem_iff.1 hp)
    obtain ⟨i, hi, rfl⟩ := List.mem_map.1 he
    refine ⟨rfl, fun hzero => ?_⟩
    have htip := toNat_tip hk (List.mem_range.1 hi)
    rw [show UInt32.ofNat (i + 1) = 0 from hzero] at htip
    exact absurd htip (Nat.succ_ne_zero i).symm
  rw [card_linkedPairs (numNodes_le_of_ofEdges h) (hperm.nodup_iff.2 (nodup_ends_spokes hk))
    fun p hp hback => (hmem hp).2 (hmem hback).1, hcount]

/-- There is a graph with one pair of linked vertices more than words can count. -/
theorem exists_card_linkedPairs_eq :
    ∃ g : Graph, g.numNodes ≤ maxWord ∧ g.linkedPairs.card = maxWord + 1 := by
  -- Half as many spokes are too many pairs already.
  let k := maxWord / 2 + 1
  have hk : k < maxWord := by decide
  obtain ⟨g, hg⟩ : ∃ g, ofEdges (k + 1) (spokes k) = .ok g := by
    refine exists_ofEdges_iff.2 ⟨hk, ?_, firstStray?_eq_none_iff.2 fun e he => ?_⟩
    · rw [spokes, List.length_map, List.length_range]
      exact Nat.le_of_lt hk
    · obtain ⟨i, hi, rfl⟩ := List.mem_map.1 he
      have hi := List.mem_range.1 hi
      refine ⟨Nat.succ_pos _, ?_⟩
      show (UInt32.ofNat (i + 1)).toNat < _
      rw [toNat_tip hk hi]
      exact Nat.succ_lt_succ hi
  exact ⟨g, numNodes_le_of_ofEdges hg, (card_linkedPairs_spokes hk hg).trans (by decide)⟩

/-! ### What symmetrizing does -/

/-- **Symmetrizing** a graph whose vertices words can tell apart. It fails only if there are more pairs
    of linked vertices than words can count; otherwise every pair gets the lightest edge between its
    vertices. -/
theorem symmetrized_merges (g : Graph) (hn : g.numNodes ≤ maxWord) :
    ((∃ s, g.symmetrized = .ok s) ↔ g.linkedPairs.card ≤ maxWord) ∧
      (maxWord < g.linkedPairs.card →
        g.symmetrized = .error (.tooLarge g.linkedPairs.card)) ∧
      ∀ s, g.symmetrized = .ok s → g.IsSymmetrization s :=
  ⟨exists_symmetrized_iff hn, symmetrized_eq_error hn, fun _ => isSymmetrization_of_symmetrized⟩

/-- Parallel edges from 0 to 1 and an edge back, parallel loops at 1, an edge from 2 to 0 without an
    edge back, and a vertex without edges. -/
def tangle : Graph where
  offsets := #[0, 2, 5, 6, 6]
  targets := #[1, 1, 0, 1, 1, 0]
  weights := #[5, 2, 3, 6, 4, 9]
  first_offset := rfl
  last_offset := rfl
  sorted_offsets := by decide
  size_weights := rfl
  target_lt := by simp

/-- The general theorem at a graph in which edges of all kinds are merged, and at one that cannot be
    symmetrized though words can tell its vertices apart. -/
theorem symmetrized_merges_tangle :
    (tangle.numNodes ≤ maxWord ∧ tangle.linkedPairs.card = 5 ∧
      ∃ s, tangle.symmetrized = .ok s ∧ tangle.IsSymmetrization s ∧
        s.edges = [⟨0, 1, 2⟩, ⟨0, 2, 9⟩, ⟨1, 0, 2⟩, ⟨1, 1, 4⟩, ⟨2, 0, 9⟩]) ∧
    ∃ g : Graph, g.numNodes ≤ maxWord ∧ g.symmetrized = .error (.tooLarge (maxWord + 1)) := by
  have hn : tangle.numNodes ≤ maxWord := by decide
  have hcard : tangle.linkedPairs.card = 5 := by decide +kernel
  constructor
  · obtain ⟨haccepted, _, hmade⟩ := symmetrized_merges tangle hn
    obtain ⟨s, hs⟩ := haccepted.2 (by rw [hcard]; decide)
    refine ⟨hn, hcard, s, hs, hmade s hs, ?_⟩
    rw [edges_of_symmetrized hs]
    cbv
  · obtain ⟨g, hwords, hmany⟩ := exists_card_linkedPairs_eq
    refine ⟨g, hwords, ?_⟩
    rw [← hmany]
    exact (symmetrized_merges g hwords).2.1 (hmany ▸ Nat.lt_succ_self maxWord)

end Graph

end SparseGraph
