import Mathlib
import SparseGraph.Proofs.Graph.Merging

namespace SparseGraph.Graph

open Text (maxWord)

/-!
# Graphs in which every edge has an edge back

Which pairs of vertices an edge joins is all that symmetry depends on: not how often it joins them, in
what order, or with what weight.

* `joinedPairs` — the pairs of vertices that an edge joins;
* `joinedPairs_of_symmetrized` — those of a symmetrized graph;
* `isSymmetric_iff_joinedPairs` — symmetric is a graph in which every edge has an edge back;
* `isSymmetric_decides` — the same, and by comparison with the symmetrized graph.
-/

/-- The pairs of vertices such that an edge leads from the first to the second. -/
def joinedPairs (g : Graph) : Set (Nat × Nat) :=
  {p | ∃ a ∈ g.arcs p.1, a.target.toNat = p.2}

variable {g s : Graph} {p : Nat × Nat}

/-- A pair is joined if it is the ends of an edge. -/
theorem mem_joinedPairs_iff (hn : g.numNodes ≤ maxWord) :
    p ∈ g.joinedPairs ↔ ∃ q ∈ g.pairs, (q.1.toNat, q.2.toNat) = p := by
  obtain ⟨u, v⟩ := p
  show (∃ a ∈ g.arcs u, a.target.toNat = v) ↔ _
  constructor
  · rintro ⟨a, ha, rfl⟩
    obtain ⟨e, he, hsource, htarget⟩ := (exists_edge_iff hn).2 ⟨a, ha, rfl⟩
    refine ⟨e.ends, List.mem_map_of_mem he, Prod.ext hsource ?_⟩
    exact congrArg UInt32.toNat htarget
  · rintro ⟨q, hq, hends⟩
    obtain ⟨e, he, rfl⟩ := List.mem_map.1 hq
    obtain ⟨hsource, htarget⟩ := Prod.mk.inj hends
    obtain ⟨a, ha, hat⟩ := (exists_edge_iff hn).1 ⟨e, he, hsource, rfl⟩
    exact ⟨a, ha, (congrArg UInt32.toNat hat).trans htarget⟩

/-- **The symmetrized graph** joins what the graph joins in either direction. -/
theorem joinedPairs_of_symmetrized (h : g.symmetrized = .ok s) :
    p ∈ s.joinedPairs ↔ p ∈ g.joinedPairs ∨ p.swap ∈ g.joinedPairs :=
  exists_arc_symmetrized_toNat_iff h

/-- **Symmetric** is a graph in which every edge has an edge back. -/
theorem isSymmetric_iff_joinedPairs (hn : g.numNodes ≤ maxWord) :
    g.isSymmetric = true ↔ ∀ p ∈ g.joinedPairs, p.swap ∈ g.joinedPairs := by
  rw [isSymmetric_iff]
  constructor
  · intro h p hp
    obtain ⟨q, hq, rfl⟩ := (mem_joinedPairs_iff hn).1 hp
    exact (mem_joinedPairs_iff hn).2 ⟨q.swap, h q hq, rfl⟩
  · intro h q hq
    -- The pair that is joined back is found as words, of which there is one for each vertex.
    have hback := h _ ((mem_joinedPairs_iff hn).2 ⟨q, hq, rfl⟩)
    obtain ⟨r, hr, hends⟩ := (mem_joinedPairs_iff hn).1 hback
    obtain ⟨hfst, hsnd⟩ := Prod.mk.inj hends
    have heq : r = q.swap := Prod.ext (UInt32.toNat_inj.1 hfst) (UInt32.toNat_inj.1 hsnd)
    rwa [← heq]

/-- A relation is symmetric if adding what it relates the other way round adds nothing. -/
theorem joinedPairs_eq_symmetrized_iff (h : g.symmetrized = .ok s) :
    g.joinedPairs = s.joinedPairs ↔ ∀ p ∈ g.joinedPairs, p.swap ∈ g.joinedPairs := by
  rw [Set.ext_iff]
  constructor
  · intro heq p hp
    refine (heq p.swap).2 ((joinedPairs_of_symmetrized h).2 (.inr ?_))
    rwa [Prod.swap_swap]
  · intro hback p
    rw [joinedPairs_of_symmetrized h]
    refine ⟨.inl, fun hp => hp.elim id fun hp => ?_⟩
    have hswap := hback _ hp
    rwa [Prod.swap_swap] at hswap

/-- **Deciding symmetry.** A graph whose vertices words can tell apart is found symmetric if each of its
    edges has an edge back, or what is the same, if symmetrizing it joins no other vertices than it joins
    already. Graphs that join the same vertices are symmetric alike, however often and in whatever order
    they join them, and with whatever weights. -/
theorem isSymmetric_decides (g : Graph) (hn : g.numNodes ≤ maxWord) :
    (g.isSymmetric = true ↔ ∀ p ∈ g.joinedPairs, p.swap ∈ g.joinedPairs) ∧
      (∀ s, g.symmetrized = .ok s → (g.isSymmetric = true ↔ g.joinedPairs = s.joinedPairs)) ∧
      ∀ h : Graph, h.numNodes ≤ maxWord → h.joinedPairs = g.joinedPairs →
        h.isSymmetric = g.isSymmetric := by
  refine ⟨isSymmetric_iff_joinedPairs hn, fun s hs => ?_, fun h hh heq => ?_⟩
  · rw [isSymmetric_iff_joinedPairs hn, joinedPairs_eq_symmetrized_iff hs]
  · rw [Bool.eq_iff_iff, isSymmetric_iff_joinedPairs hn, isSymmetric_iff_joinedPairs hh, heq]

/-- Edges back for parallel edges, for a loop, and for edges of other weights, and a vertex without
    edges. -/
def mirrored : Graph where
  offsets := #[0, 3, 5, 6, 6]
  targets := #[1, 1, 0, 2, 0, 1]
  weights := #[11, 12, 13, 14, 15, 16]
  first_offset := rfl
  last_offset := rfl
  sorted_offsets := by decide
  size_weights := rfl
  target_lt := by simp

/-- The same joined once each, in another order and with other weights. -/
def mirroredOnce : Graph where
  offsets := #[0, 2, 4, 5, 5]
  targets := #[0, 1, 0, 2, 1]
  weights := #[21, 22, 23, 24, 25]
  first_offset := rfl
  last_offset := rfl
  sorted_offsets := by decide
  size_weights := rfl
  target_lt := by simp

theorem pairs_mirrored :
    mirrored.pairs = [(0, 1), (0, 1), (0, 0), (1, 2), (1, 0), (2, 1)] := by
  decide +kernel

theorem joinedPairs_mirroredOnce : mirroredOnce.joinedPairs = mirrored.joinedPairs := by
  have honce : mirroredOnce.pairs = [(0, 0), (0, 1), (1, 0), (1, 2), (2, 1)] := by decide +kernel
  ext p
  rw [mem_joinedPairs_iff (by decide), mem_joinedPairs_iff (by decide), pairs_mirrored, honce]
  simp only [List.mem_cons, List.not_mem_nil, or_false, or_and_right, exists_or, exists_eq_left]
  tauto

/-- The general theorem at graphs with edges back, and at one that lacks an edge back. -/
theorem isSymmetric_decides_mirrored :
    mirrored.numNodes ≤ maxWord ∧ mirrored.isSymmetric = true ∧
      (∀ p ∈ mirrored.joinedPairs, p.swap ∈ mirrored.joinedPairs) ∧
      (∃ s, mirrored.symmetrized = .ok s ∧ mirrored.joinedPairs = s.joinedPairs) ∧
      mirroredOnce.numNodes ≤ maxWord ∧ mirroredOnce.joinedPairs = mirrored.joinedPairs ∧
      mirroredOnce.isSymmetric = true ∧
      tangle.numNodes ≤ maxWord ∧ (2, 0) ∈ tangle.joinedPairs ∧ (0, 2) ∉ tangle.joinedPairs ∧
      tangle.isSymmetric = false := by
  have hn : mirrored.numNodes ≤ maxWord := by decide
  have honce : mirroredOnce.numNodes ≤ maxWord := by decide
  have htangle : tangle.numNodes ≤ maxWord := by decide
  obtain ⟨hback, hcompare, halike⟩ := isSymmetric_decides mirrored hn
  have hsymmetric : mirrored.isSymmetric = true := by
    rw [isSymmetric_iff, pairs_mirrored]
    simp
  obtain ⟨s, hs⟩ : ∃ s, mirrored.symmetrized = .ok s := by
    have hcard : mirrored.linkedPairs.card = 5 := by decide +kernel
    exact (exists_symmetrized_iff hn).2 (by rw [hcard]; decide)
  have hpairs : tangle.pairs = [(0, 1), (0, 1), (1, 0), (1, 1), (1, 1), (2, 0)] := by
    decide +kernel
  have hedge : (2, 0) ∈ tangle.joinedPairs := by
    rw [mem_joinedPairs_iff htangle, hpairs]
    exact ⟨(2, 0), by simp, rfl⟩
  have hnone : (0, 2) ∉ tangle.joinedPairs := by
    rw [mem_joinedPairs_iff htangle, hpairs]
    simp
  refine ⟨hn, hsymmetric, hback.1 hsymmetric, ⟨s, hs, (hcompare s hs).1 hsymmetric⟩, honce,
    joinedPairs_mirroredOnce, ?_, htangle, hedge, hnone, ?_⟩
  · rw [halike mirroredOnce honce joinedPairs_mirroredOnce, hsymmetric]
  · rw [Bool.eq_false_iff]
    exact fun hfound => hnone ((isSymmetric_decides tangle htangle).1.1 hfound (2, 0) hedge)

end SparseGraph.Graph
