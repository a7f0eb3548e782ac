import SparseGraph.Proofs.Graph.Tiling
import SparseGraph.Proofs.StableSort

namespace SparseGraph.Graph

open Text (maxWord)

/-!
# The order of edges

The edges of a graph stand by their sources, and those of one source in the order in which they came.
So they are the list that the graph was built from, stably sorted by source, and building a graph from
them changes nothing.

* `pairwise_source_edges` — the sources of the edges do not descend;
* `edges_of_ofEdges`, `numEdges_of_ofEdges` — the edges of a graph that is built from a list;
* `edges_ofEdges_inverse` — building and listing undo each other.
-/

variable {n : Nat} {edges : List Edge} {g : Graph}

/-- The sources of the edges do not descend. -/
theorem pairwise_source_edges (hn : g.numNodes ≤ maxWord) :
    g.edges.Pairwise (·.source.toNat ≤ ·.source.toNat) := by
  rw [edges_eq hn, List.pairwise_flatMap]
  constructor
  · -- Within a row all sources are the same.
    intro v _
    exact List.pairwise_map.2 (List.pairwise_of_forall fun a b => Nat.le_refl _)
  · have hrange : (List.range g.numNodes).Pairwise (· < ·) := List.pairwise_lt_range
    refine hrange.imp_of_mem fun {u v} hu hv huv e he f hf => ?_
    obtain ⟨a, _, rfl⟩ := List.mem_map.1 he
    obtain ⟨b, _, rfl⟩ := List.mem_map.1 hf
    rw [Arc.source_edgeFrom, Arc.source_edgeFrom, toNat_ofNat_of_lt hn (List.mem_range.1 hu),
      toNat_ofNat_of_lt hn (List.mem_range.1 hv)]
    exact Nat.le_of_lt huv

/-- **Listed as they came:** the edges of a graph that is built from a list are this list, stably
    sorted by source. -/
theorem edges_of_ofEdges (h : ofEdges n edges = .ok g) :
    g.edges = edges.mergeSort (keyLE fun e => e.source.toNat) := by
  have hn := numNodes_le_of_ofEdges h
  refine eq_mergeSort_of_filter_eq (pairwise_source_edges hn) fun v => ?_
  rw [filter_edges hn, arcs_of_ofEdges h, List.map_map]
  -- An edge with source `v` is what `v` sees of it.
  refine (List.map_congr_left fun e he => ?_).trans (List.map_id _)
  have hsource : e.source.toNat = v := beq_iff_eq.1 (List.mem_filter.1 he).2
  rw [Function.comp_apply, ← hsource, UInt32.ofNat_toNat, Edge.edgeFrom_arc, id]

/-- Every edge of the list becomes one of the graph. -/
theorem numEdges_of_ofEdges (h : ofEdges n edges = .ok g) : g.numEdges = edges.length := by
  rw [← length_edges (numNodes_le_of_ofEdges h), edges_of_ofEdges h, List.length_mergeSort]

/-- **Building and listing.** The edges of a graph, whose vertices words can tell apart, build this
    graph again; and the edges of a graph that is built from a list are the list, stably sorted by
    source. -/
theorem edges_ofEdges_inverse :
    (∀ g : Graph, g.numNodes ≤ maxWord → ofEdges g.numNodes g.edges = .ok g) ∧
    ∀ (n : Nat) (edges : List Edge) (g : Graph), ofEdges n edges = .ok g →
      g.edges = edges.mergeSort (keyLE fun e => e.source.toNat) :=
  ⟨fun _ hn => ofEdges_edges hn, fun _ _ _ h => edges_of_ofEdges h⟩

/-- Two edges out of vertex 1 and two out of vertex 3; the first, the middle and the last vertex have
    none. -/
def gaps : Graph where
  offsets := #[0, 0, 2, 2, 4, 4]
  targets := #[2, 1, 0, 2]
  weights := #[3, 4, 7, 1]
  first_offset := rfl
  last_offset := rfl
  sorted_offsets := by decide
  size_weights := rfl
  target_lt := by simp

/-- The general theorem at a graph with gaps, which is built from edges in another order. -/
theorem edges_ofEdges_inverse_gaps :
    ofEdges 5 [⟨3, 0, 7⟩, ⟨1, 2, 3⟩, ⟨3, 2, 1⟩, ⟨1, 1, 4⟩] = .ok gaps ∧
      gaps.edges = [⟨1, 2, 3⟩, ⟨1, 1, 4⟩, ⟨3, 0, 7⟩, ⟨3, 2, 1⟩] ∧
      gaps.edges = List.mergeSort [⟨3, 0, 7⟩, ⟨1, 2, 3⟩, ⟨3, 2, 1⟩, ⟨1, 1, 4⟩]
        (keyLE fun e => e.source.toNat) ∧
      gaps.numNodes ≤ maxWord ∧ ofEdges gaps.numNodes gaps.edges = .ok gaps := by
  have hbuilt : ofEdges 5 [⟨3, 0, 7⟩, ⟨1, 2, 3⟩, ⟨3, 2, 1⟩, ⟨1, 1, 4⟩] = .ok gaps := by
    decide +kernel
  have hn : gaps.numNodes ≤ maxWord := by decide
  obtain ⟨hagain, hsorted⟩ := edges_ofEdges_inverse
  exact ⟨hbuilt, by decide +kernel, hsorted 5 _ gaps hbuilt, hn, hagain gaps hn⟩

end SparseGraph.Graph
