import SparseGraph.Proofs.Graph.AdjacencyRoundTrip
import SparseGraph.Proofs.Graph.EdgeListText
import SparseGraph.Proofs.Graph.Symmetrized
import SparseGraph.Proofs.Graph.TableRoundTrip
import SparseGraph.Proofs.Graph.Tiling

namespace SparseGraph.Graph

open Text (maxWord)

/-!
# Vertices counted in words

Edges name vertices by words, and going through the edges of a graph cuts its vertices to words.
Whatever a graph is built from, the number of its vertices is refused if no word can hold it, unless
it is built from arrays: these are taken with any number of offsets. As long as a word holds the
number, each slot of the arrays is listed once, by source; if not, edges may be listed again.

* `Origin`, `Origin.Builds` — what graphs are built from;
* `Origin.FitsWords`, `numNodes_le_iff` — which of these give no more vertices than a word can hold;
* `map_edges` — the edges as they stand in the arrays;
* `edges_listed_once` — both together;
* `loneLoop`, `arrays_edges_repeated` — arrays that tell one edge, which is listed twice.
-/

/-- What a graph can be built from. -/
inductive Origin where
  | nothing
  | edgeList (edges : List Edge)
  | vertices (n : Nat) (edges : List Edge)
  | arrays (offsets targets weights : Array UInt32)
  | adjacencyText (text : List Char)
  | edgeListText (text : List Char)
  | bothDirections (g : Graph)
  | table (t : Table)

/-- The graph is what is built. -/
def Origin.Builds (g : Graph) : Origin → Prop
  | nothing => g = empty
  | edgeList edges => ofEdgeList edges = .ok g
  | vertices n edges => ofEdges n edges = .ok g
  | arrays offsets targets weights => ofParts offsets targets weights = .ok g
  | adjacencyText text => ofAdjacencyText text = .ok g
  | edgeListText text => ofEdgeListText text = .ok g
  | bothDirections other => other.symmetrized = .ok g
  | table t => ofTable t = .ok g

/-- There are no more offsets than for vertices that can be counted in a word. -/
def Origin.FitsWords : Origin → Prop
  | arrays offsets _ _ => offsets.size ≤ maxWord + 1
  | _ => True

variable {g : Graph} {o : Origin} {t : Table}

/-! ### The number of vertices -/

theorem numNodes_le_of_ofTable (h : ofTable t = .ok g) : g.numNodes ≤ maxWord := by
  obtain ⟨declaredNodes, _, h⟩ := bind_eq_ok_iff.1 h
  obtain ⟨declaredEdges, _, h⟩ := bind_eq_ok_iff.1 h
  obtain ⟨edges, _, h⟩ := bind_eq_ok_iff.1 h
  have hg := mapError_eq_ok_iff.1 h
  unfold ofDeclared at hg
  split at hg
  · cases hg
  · split at hg
    · exact numNodes_le_of_ofEdges hg
    · split at hg
      · cases hg
      · exact numNodes_le_of_ofEdges hg

/-- **Vertices are counted in words** just in case arrays have no more offsets than that. -/
theorem numNodes_le_iff (h : o.Builds g) : g.numNodes ≤ maxWord ↔ o.FitsWords := by
  cases o with
  | nothing =>
    obtain rfl : g = empty := h
    exact iff_of_true (by decide) trivial
  | edgeList edges => exact iff_of_true (numNodes_le_of_ofEdges h) trivial
  | vertices n edges => exact iff_of_true (numNodes_le_of_ofEdges h) trivial
  | arrays offsets targets weights =>
    obtain ⟨rfl, _⟩ := ofParts_eq_ok_iff.1 h
    have hsize := g.size_offsets
    show g.numNodes ≤ maxWord ↔ g.offsets.size ≤ maxWord + 1
    omega
  | adjacencyText text => exact iff_of_true (numNodes_le_of_ofAdjacencyText h) trivial
  | edgeListText text => exact iff_of_true (numNodes_le_of_ofEdgeListText h) trivial
  | bothDirections other => exact iff_of_true (numNodes_le_of_ofEdges h) trivial
  | table t => exact iff_of_true (numNodes_le_of_ofTable h) trivial

/-! ### Each slot once -/

/-- **The edges are the slots of the arrays,** each once and in order. -/
theorem map_edges (hn : g.numNodes ≤ maxWord) :
    g.edges.map Edge.target = g.targets.toList ∧ g.edges.map Edge.weight = g.weights.toList := by
  obtain ⟨htargets, hweights⟩ := g.map_slots
  rw [← g.flatMap_arcs_numNodes, List.map_flatMap] at htargets hweights
  rw [edges_eq hn, List.map_flatMap, List.map_flatMap, ← htargets, ← hweights]
  simp only [List.map_map]
  exact ⟨rfl, rfl⟩

/-- **Edges listed once.** Whatever a graph is built from, a word holds the number of its vertices,
    but for arrays with too many offsets. Where it does, the edges listed are those of vertex 0, then
    those of vertex 1, and so on, as many as there are, with the targets and weights of the arrays in
    order. -/
theorem edges_listed_once {g : Graph} {o : Origin} (h : o.Builds g) :
    (g.numNodes ≤ maxWord ↔ o.FitsWords) ∧
    (o.FitsWords →
      g.edges = (List.range g.numNodes).flatMap (fun v =>
        (g.arcs v).map (Arc.edgeFrom (UInt32.ofNat v))) ∧
      g.edges.length = g.numEdges ∧
      g.edges.map Edge.target = g.targets.toList ∧
      g.edges.map Edge.weight = g.weights.toList ∧
      ∀ v, g.edges.filter (·.source.toNat == v) =
        (g.arcs v).map (Arc.edgeFrom (UInt32.ofNat v))) := by
  refine ⟨numNodes_le_iff h, fun hfits => ?_⟩
  have hn := (numNodes_le_iff h).2 hfits
  obtain ⟨htargets, hweights⟩ := map_edges hn
  exact ⟨edges_eq hn, length_edges hn, htargets, hweights, filter_edges hn⟩

/-- Two edges out of vertex 0, none out of vertex 1, and one out of vertex 2. -/
def emptyRow : Graph where
  offsets := #[0, 2, 2, 3]
  targets := #[2, 1, 0]
  weights := #[4, 8, 2]
  first_offset := rfl
  last_offset := rfl
  sorted_offsets := by decide
  size_weights := rfl
  target_lt := by simp

/-- The general theorem at the arrays of a graph with an empty row. -/
theorem edges_listed_once_emptyRow :
    (Origin.arrays #[0, 2, 2, 3] #[2, 1, 0] #[4, 8, 2]).Builds emptyRow ∧
      (Origin.arrays #[0, 2, 2, 3] #[2, 1, 0] #[4, 8, 2]).FitsWords ∧
      emptyRow.numNodes ≤ maxWord ∧
      emptyRow.edges = [⟨0, 2, 4⟩, ⟨0, 1, 8⟩, ⟨2, 0, 2⟩] ∧ emptyRow.edges.length = 3 ∧
      emptyRow.edges.map Edge.target = [2, 1, 0] := by
  have hbuilds : (Origin.arrays #[0, 2, 2, 3] #[2, 1, 0] #[4, 8, 2]).Builds emptyRow :=
    ofParts_arrays emptyRow
  have hfits : (Origin.arrays #[0, 2, 2, 3] #[2, 1, 0] #[4, 8, 2]).FitsWords := by
    show 4 ≤ maxWord + 1
    decide
  obtain ⟨hnodes, hedges⟩ := edges_listed_once hbuilds
  obtain ⟨hlisted, hlength, htargets, _⟩ := hedges hfits
  refine ⟨hbuilds, hfits, hnodes.2 hfits, ?_, hlength, htargets⟩
  rw [hlisted]
  decide +kernel

/-! ### More vertices than words -/

/-- Vertex 0 with an edge to itself, and `n` vertices without edges. -/
def loneLoop (n : Nat) : Graph where
  offsets := #[0] ++ Array.replicate (n + 1) 1
  targets := #[0]
  weights := #[3]
  first_offset := by rw [Array.getElem?_append_left Nat.zero_lt_one]; rfl
  last_offset := by
    rw [Array.replicate_succ, Array.append_push, Array.back?_push]
    rfl
  sorted_offsets := by simp
  size_weights := rfl
  target_lt := by simp

theorem ofParts_loneLoop (n : Nat) :
    ofParts (#[0] ++ Array.replicate (n + 1) 1) #[0] #[3] = .ok (loneLoop n) :=
  ofParts_arrays (loneLoop n)

theorem numNodes_loneLoop (n : Nat) : (loneLoop n).numNodes = n + 1 := by
  simp [numNodes, loneLoop]

theorem arcs_loneLoop (n : Nat) : (loneLoop n).arcs 0 = [⟨0, 3⟩] := by
  have hend : (loneLoop n).start 1 = 1 := by
    have hget : (loneLoop n).offsets[1]? = some 1 := by
      show (#[0] ++ Array.replicate (n + 1) 1)[1]? = some 1
      rw [Array.getElem?_append_right (Nat.le_refl 1)]
      exact (Array.getElem?_replicate ..).trans (if_pos (Nat.succ_pos n))
    rw [start, Array.getD_eq_getD_getElem?, hget]
    rfl
  rw [arcs_eq_slots, start_zero, hend]
  rfl

/-- **An edge listed again.** Behind the last vertex that a word can name, vertices are cut to words,
    and the edges of vertex 0 come a second time. -/
theorem two_le_length_edges_loneLoop {n : Nat} (hn : UInt32.size ≤ n) :
    2 ≤ (loneLoop n).edges.length := by
  have hzero : UInt32.ofNat UInt32.size = 0 := rfl
  obtain ⟨k, hk⟩ : ∃ k, n + 1 = UInt32.size + (k + 1) := ⟨n - UInt32.size, by omega⟩
  have hpos : 0 < UInt32.size := by decide
  -- From here on the number of words is only known to be cut to 0.
  generalize UInt32.size = size at hzero hk hpos
  have hloop : ∀ v, UInt32.ofNat v = 0 → (⟨0, 0, 3⟩ : Edge) ∈
      ((loneLoop n).arcs (UInt32.ofNat v).toNat).map (Arc.edgeFrom (UInt32.ofNat v)) := by
    intro v hv
    rw [hv]
    show _ ∈ ((loneLoop n).arcs 0).map (Arc.edgeFrom 0)
    rw [arcs_loneLoop]
    exact List.mem_cons_self
  unfold edges
  rw [numNodes_loneLoop, hk, List.range_add, List.flatMap_append, List.length_append]
  show 1 + 1 ≤ _
  apply Nat.add_le_add
  · apply List.length_pos_of_mem
    exact List.mem_flatMap.2 ⟨0, List.mem_range.2 hpos, hloop 0 rfl⟩
  · apply List.length_pos_of_mem
    refine List.mem_flatMap.2 ⟨size, List.mem_map.2 ⟨0, ?_, rfl⟩, hloop size hzero⟩
    exact List.mem_range.2 (Nat.succ_pos k)

/-- Arrays are taken with more offsets than words can count, and the edge they tell is listed
    twice. -/
theorem arrays_edges_repeated :
    ∃ g, ofParts (#[0] ++ Array.replicate (UInt32.size + 1) 1) #[0] #[3] = .ok g ∧
      maxWord < g.numNodes ∧ g.numEdges = 1 ∧ 2 ≤ g.edges.length := by
  refine ⟨loneLoop UInt32.size, ofParts_loneLoop UInt32.size, ?_, rfl,
    two_le_length_edges_loneLoop (Nat.le_refl _)⟩
  rw [numNodes_loneLoop]
  decide

end SparseGraph.Graph
