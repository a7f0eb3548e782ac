import Mathlib
import SparseGraph.Proofs.Component.Forest
import SparseGraph.Proofs.Component.Propagation
import SparseGraph.Proofs.Graph.Symmetrized

namespace SparseGraph.Component

/-!
# Propagation and the union-find forest agree

Propagation on any graph finds the least vertex with a walk to each vertex. On the symmetrized graph
walks join what the edges of the graph link, and the roots of the forest are the least vertices that
edges link, so both find the same.

* `labels_propagate_symmetrized` — the labels of the symmetrized graph are the roots of the graph;
* `propagate_least` — what propagation finds, on every graph and on a symmetrized one;
* `fork`, `forkBoth` — a graph on which the two differ unless it is symmetrized.
-/

/-- **Labels of the symmetrized graph** are the roots of the graph: both are the least vertex that
    edges link to a vertex. -/
theorem labels_propagate_symmetrized {g s : Graph} (h : g.symmetrized = .ok s) :
    (propagate s).labels.toList = weakComponents g := by
  have hn : g.numNodes ≤ Text.maxWord := Graph.numNodes_le_of_symmetrized h
  have hs : s.numNodes = g.numNodes := Graph.numNodes_symmetrized h
  have hsize : (propagate s).labels.size = g.numNodes := by
    rw [size_labels_propagate (by rw [hs]; exact hn), hs]
  apply List.ext_getElem?
  intro v
  rw [Array.getElem?_toList]
  by_cases hv : v < g.numNodes
  · obtain ⟨label, hlabel, hreaches, hleast⟩ :=
      getElem?_labels_propagate (g := s) (by rw [hs]; exact hn) (by rw [hs]; exact hv)
    obtain ⟨root, hroot, hlinked, hleast'⟩ := getElem?_weakComponents hn hv
    -- Walks of the symmetrized graph are links of the graph, so each of the two is a bound for the
    -- other.
    have heq : label = root := by
      apply Nat.le_antisymm
      · exact hleast root ((Graph.reaches_symmetrized_iff h).2 hlinked)
      · exact hleast' label ((Graph.reaches_symmetrized_iff h).1 hreaches)
    rw [hlabel, hroot, heq]
  · have hle := Nat.le_of_not_lt hv
    rw [Array.getElem?_eq_none (by rw [hsize]; exact hle),
      List.getElem?_eq_none (by rw [length_weakComponents]; exact hle)]

/-- **Propagation finds least vertices.** In a graph with no more vertices than words can tell
    apart, the label of each vertex is the least vertex with a walk to it. On a symmetrized graph
    the labels are what the union-find forest finds for the graph itself. -/
theorem propagate_least (g : Graph) :
    (g.numNodes ≤ Text.maxWord →
      (propagate g).labels.size = g.numNodes ∧
      ∀ v < g.numNodes, ∃ u < g.numNodes, (propagate g).labels[v]? = some u ∧
        g.Reaches u v ∧ ∀ w, g.Reaches w v → u ≤ w) ∧
    ∀ s, g.symmetrized = .ok s → (propagate s).labels.toList = weakComponents g := by
  refine ⟨fun hn => ⟨size_labels_propagate hn, fun v hv => ?_⟩,
    fun s hs => labels_propagate_symmetrized hs⟩
  obtain ⟨u, hlabel, hreaches, hleast⟩ := getElem?_labels_propagate hn hv
  have hle : u ≤ v := hleast v (.refl g v)
  exact ⟨u, Nat.lt_of_le_of_lt hle hv, hlabel, hreaches, hleast⟩

/-! ### A fork -/

/-- Two ways into vertex 2, from vertices 1 and 3, and one from vertex 3 into vertex 0. -/
def fork : Graph where
  offsets := #[0, 0, 1, 1, 3]
  targets := #[2, 2, 0]
  weights := #[1, 1, 1]
  first_offset := rfl
  last_offset := rfl
  sorted_offsets := by decide
  size_weights := rfl
  target_lt := by simp

/-- The fork with each edge in both directions. -/
def forkBoth : Graph where
  offsets := #[0, 1, 2, 4, 6]
  targets := #[3, 2, 1, 3, 0, 2]
  weights := #[1, 1, 1, 1, 1, 1]
  first_offset := rfl
  last_offset := rfl
  sorted_offsets := by decide
  size_weights := rfl
  target_lt := by simp

/-- The general theorem at the fork: from vertex 1 a walk leads to vertex 2, and no lesser vertex
    reaches it, but once edges may be followed backwards all four vertices belong together. -/
theorem propagate_least_fork :
    fork.numNodes ≤ Text.maxWord ∧ (propagate fork).labels = #[0, 1, 1, 3] ∧
      (fork.Reaches 1 2 ∧ ∀ w, fork.Reaches w 2 → 1 ≤ w) ∧
      fork.symmetrized = .ok forkBoth ∧ weakComponents fork = [0, 0, 0, 0] ∧
      (propagate forkBoth).labels.toList = [0, 0, 0, 0] := by
  have hn : fork.numNodes ≤ Text.maxWord := by decide
  have hlabels : (propagate fork).labels = #[0, 1, 1, 3] := by decide +kernel
  have hboth : fork.symmetrized = .ok forkBoth := by cbv
  have hroots : weakComponents fork = [0, 0, 0, 0] := by decide +kernel
  obtain ⟨hleast, hagree⟩ := propagate_least fork
  refine ⟨hn, hlabels, ?_, hboth, hroots, ?_⟩
  · obtain ⟨u, _, hu, hreaches⟩ := (hleast hn).2 2 (by decide)
    rw [hlabels] at hu
    cases hu
    exact hreaches
  · rw [hagree forkBoth hboth, hroots]

end SparseGraph.Component
