import Mathlib.Data.List.Basic
import Mathlib.Data.Nat.Find
import SparseGraph.Graph.Walk

namespace SparseGraph.Graph

/-!
# Arcs of a graph

What holds of the arcs of every graph, however it was built:

* `target_lt_of_mem_arcs` — an arc leads to a vertex;
* `lt_of_mem_arcs` — and it leaves one, since numbers beyond the vertices have no arcs;
* `edges_eq`, `mem_edges_iff` — the edges are the arcs, seen from outside;
* `Reaches.step` — what reaches the source of an arc reaches its target;
* `exists_arc_of_reaches`, `exists_least_reaches` — the first arc of a walk, and the least of the
  vertices that reach a vertex.
-/

variable {g : Graph} {v : Nat} {a : Arc}

/-- The arcs of a vertex as slices of the targets and the weights. -/
theorem arcs_eq_zipWith (g : Graph) (v : Nat) :
    g.arcs v = List.zipWith Arc.mk
      ((g.targets.extract (g.start v) (g.start (v + 1))).toList)
      ((g.weights.extract (g.start v) (g.start (v + 1))).toList) := by
  unfold arcs
  rw [Array.toList_zipWith]

/-- The target of an arc stands among the targets of the graph. -/
theorem target_mem_of_mem_arcs (h : a ∈ g.arcs v) : a.target ∈ g.targets := by
  rw [arcs_eq_zipWith] at h
  obtain ⟨i, hi⟩ := List.getElem?_of_mem h
  obtain ⟨t, w, ht, _, rfl⟩ := List.getElem?_zipWith_eq_some.1 hi
  have hmem := List.mem_of_getElem? ht
  rw [Array.toList_extract] at hmem
  exact Array.mem_toList_iff.1 (List.mem_of_mem_drop (List.mem_of_mem_take hmem))

/-- **Arcs lead to vertices.** -/
theorem target_lt_of_mem_arcs (h : a ∈ g.arcs v) : a.target.toNat < g.numNodes := by
  have ht := g.target_lt a.target (target_mem_of_mem_arcs h)
  rw [size_offsets] at ht
  omega

/-- Beyond the vertices there are no arcs: the row would end at the default offset 0. -/
theorem arcs_of_le (h : g.numNodes ≤ v) : g.arcs v = [] := by
  have hend : g.start (v + 1) = 0 := by
    have hsize := g.size_offsets
    unfold start
    rw [Array.getD_eq_getD_getElem?, Array.getElem?_eq_none (by omega)]
    rfl
  rw [arcs_eq_zipWith, hend, Array.toList_extract]
  simp

/-- **Arcs leave vertices.** -/
theorem lt_of_mem_arcs (h : a ∈ g.arcs v) : v < g.numNodes := by
  by_contra hv
  rw [arcs_of_le (Nat.le_of_not_lt hv)] at h
  exact absurd h List.not_mem_nil

/-- A vertex is kept in 32 bits. -/
theorem toNat_ofNat_of_lt (hn : g.numNodes ≤ Text.maxWord) (hv : v < g.numNodes) :
    (UInt32.ofNat v).toNat = v := by
  apply UInt32.toNat_ofNat_of_lt'
  unfold Text.maxWord at hn
  simp only [UInt32.size]
  omega

/-- As long as vertices are kept in 32 bits, the edges are those of vertex 0, then those of vertex
    1, and so on. -/
theorem edges_eq (hn : g.numNodes ≤ Text.maxWord) :
    g.edges = (List.range g.numNodes).flatMap fun v =>
      (g.arcs v).map (Arc.edgeFrom (UInt32.ofNat v)) := by
  unfold edges
  apply List.flatMap_congr
  intro v hv
  dsimp only
  rw [toNat_ofNat_of_lt hn (List.mem_range.1 hv)]

/-- The edges of a graph are the arcs of its vertices. -/
theorem mem_edges_iff (hn : g.numNodes ≤ Text.maxWord) {e : Edge} :
    e ∈ g.edges ↔ ∃ v < g.numNodes, ∃ a ∈ g.arcs v, a.edgeFrom (UInt32.ofNat v) = e := by
  rw [edges_eq hn]
  simp only [List.mem_flatMap, List.mem_range, List.mem_map]

/-- What reaches the source of an arc reaches its target, whatever the weight of the arc. -/
theorem Reaches.step {u : Nat} (h : g.Reaches u v) (ha : a ∈ g.arcs v) :
    g.Reaches u a.target.toNat := by
  obtain ⟨weight, walk⟩ := h
  exact ⟨_, walk.step ha⟩

/-- A walk that leads away from its source begins with an arc that does. -/
theorem exists_arc_of_reaches {u : Nat} (h : g.Reaches u v) (hne : v ≠ u) :
    ∃ a ∈ g.arcs u, a.target.toNat ≠ u := by
  obtain ⟨weight, walk⟩ := h
  induction walk with
  | stay => exact absurd rfl hne
  | @step w weight a _ ha ih =>
    by_cases hw : w = u
    · subst hw
      exact ⟨a, ha, hne⟩
    · exact ih hw

/-- Among the vertices that reach `v` there is a least one. -/
theorem exists_least_reaches (g : Graph) (v : Nat) :
    ∃ m, g.Reaches m v ∧ ∀ u, g.Reaches u v → m ≤ u := by
  classical
  have h : ∃ m, g.Reaches m v := ⟨v, .refl g v⟩
  exact ⟨Nat.find h, Nat.find_spec h, fun u hu => Nat.find_min' h hu⟩

end SparseGraph.Graph
