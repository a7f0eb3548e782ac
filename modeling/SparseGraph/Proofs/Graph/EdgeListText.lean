import SparseGraph.Graph.EdgeListText
import SparseGraph.Proofs.Fallible
import SparseGraph.Proofs.Graph.AdjacencyRoundTrip
import SparseGraph.Proofs.Graph.Symmetrized
import SparseGraph.Proofs.Graph.Tiling

namespace SparseGraph.Graph

open Text (lines words maxWord)

/-!
# Graphs of edge lists

Edge lists as text tell no weights, so their graphs have none but 1, and so have the symmetric copies
of these. A text with no more than one word a line tells no edges at all, and adjacency texts are
written that way.

* `isWeighted_of_ofEdgeListText`, `isWeighted_of_symmetrized` — all weights are 1;
* `numNodes_le_of_ofEdgeListText` — vertices are counted in 32 bits;
* `ofEdgeListText_adjacencyText` — an adjacency text taken for an edge list.
-/

variable {g s : Graph} {text : List Char} {edges : List Edge} {n : Nat}

/-! ### Weights -/

/-- **A graph is unweighted** just in case all its edges have weight 1. -/
theorem isWeighted_eq_false_iff_edges (hn : g.numNodes ≤ maxWord) :
    g.isWeighted = false ↔ ∀ e ∈ g.edges, e.weight = 1 := by
  rw [isWeighted_eq_false_iff]
  constructor
  · intro h e he
    obtain ⟨v, hv, a, ha, rfl⟩ := (mem_edges_iff hn).1 he
    exact h a.weight (mem_weights_iff.2 ⟨v, hv, a, ha, rfl⟩)
  · intro h w hw
    obtain ⟨v, hv, a, ha, rfl⟩ := mem_weights_iff.1 hw
    exact h _ ((mem_edges_iff hn).2 ⟨v, hv, a, ha, rfl⟩)

/-- Edges of weight 1 build a graph with weights of 1. -/
theorem isWeighted_of_ofEdges (h : ofEdges n edges = .ok g) (hedges : ∀ e ∈ edges, e.weight = 1) :
    g.isWeighted = false := by
  rw [isWeighted_eq_false_iff]
  intro w hw
  obtain ⟨v, _, a, ha, rfl⟩ := mem_weights_iff.1 hw
  obtain ⟨e, he, _, rfl⟩ := (mem_arcs_of_ofEdges h).1 ha
  exact hedges e he

/-- **Symmetric copies keep weights of 1:** their edges are edges of the graph or edges back. -/
theorem isWeighted_of_symmetrized (h : g.symmetrized = .ok s) (hg : g.isWeighted = false) :
    s.isWeighted = false := by
  have hedges := (isWeighted_eq_false_iff_edges (numNodes_le_of_symmetrized h)).1 hg
  apply isWeighted_of_ofEdges h
  intro e he
  have hmem := List.mem_mergeSort.1 (mem_of_mem_firsts he)
  obtain ⟨f, hf, hef⟩ := List.mem_flatMap.1 hmem
  rcases List.mem_cons.1 hef with rfl | hef
  · exact hedges e hf
  · obtain rfl := List.mem_singleton.1 hef
    exact hedges f hf

/-! ### Edge lists -/

/-- A line gives an edge of weight 1. -/
theorem DataLine.weight_of_edge {l : DataLine} {e : Edge} (h : l.edge = .ok e) : e.weight = 1 := by
  obtain ⟨source, _, h⟩ := bind_eq_ok_iff.1 h
  obtain ⟨target, _, h⟩ := bind_eq_ok_iff.1 h
  cases h
  rfl

/-- The graph of a text is built from edges of weight 1. -/
theorem of_ofEdgeListText (h : ofEdgeListText text = .ok g) :
    ∃ n edges, (∀ e ∈ edges, e.weight = 1) ∧ ofEdges n edges = .ok g := by
  obtain ⟨edges, hedges, hg⟩ := bind_eq_ok_iff.1 h
  refine ⟨_, _, ?_, hg⟩
  intro e he
  obtain ⟨l, _, hl⟩ := exists_of_mem_of_mapM hedges (List.mem_mergeSort.1 he)
  exact DataLine.weight_of_edge hl

/-- **Edge lists tell no weights.** -/
theorem isWeighted_of_ofEdgeListText (h : ofEdgeListText text = .ok g) : g.isWeighted = false := by
  obtain ⟨n, edges, hedges, hg⟩ := of_ofEdgeListText h
  exact isWeighted_of_ofEdges hg hedges

theorem numNodes_le_of_ofEdgeListText (h : ofEdgeListText text = .ok g) : g.numNodes ≤ maxWord := by
  obtain ⟨n, edges, _, hg⟩ := of_ofEdgeListText h
  exact numNodes_le_of_ofEdges hg

/-! ### Adjacency texts taken for edge lists -/

/-- A line with no more than one word gives no edge. -/
theorem dataLine?_eq_none {l : List Char} {number : Nat} (h : (words l).length ≤ 1) :
    dataLine? l number = none := by
  unfold dataLine?
  split
  · rfl
  · split
    next source target rest heq =>
      rw [heq] at h
      exact absurd h (by simp)
    next => rfl

/-- **An adjacency text taken for an edge list** gives the graph without vertices: it is written one
    word a line. -/
theorem ofEdgeListText_adjacencyText (g : Graph) (weighted : Bool) :
    ofEdgeListText (g.adjacencyText weighted) = .ok empty := by
  have hnone : dataLines (g.adjacencyText weighted) = [] := by
    have hlines : lines (g.adjacencyText weighted) = g.adjacencyWords weighted ++ [[]] :=
      Text.lines_flatMap fun word hword =>
        Text.newline_notMem_of_isBlank (isBlank_of_mem_adjacencyWords hword)
    unfold dataLines
    rw [List.filterMap_eq_nil_iff]
    rintro ⟨l, number⟩ hmem
    apply dataLine?_eq_none
    have hl : l ∈ g.adjacencyWords weighted ++ [[]] := by
      rw [← hlines]
      exact List.fst_mem_of_mem_zipIdx hmem
    -- A line is a word of the graph, or the empty one behind the last line feed.
    rcases List.mem_append.1 hl with hl | hl
    · have hword := Text.words_append (l := []) (ne_nil_of_mem_adjacencyWords hl)
        (isBlank_of_mem_adjacencyWords hl) (by simp)
      rw [List.append_nil] at hword
      rw [hword]
      exact Nat.le_refl 1
    · obtain rfl := List.mem_singleton.1 hl
      exact Nat.zero_le 1
  unfold ofEdgeListText
  rw [hnone, List.mapM_nil]
  show ofEdgeList (List.mergeSort [] fun e f => pairLe e.ends f.ends) = .ok empty
  rw [List.mergeSort_nil]
  exact ofEdges_edges (g := empty) (by decide)

end SparseGraph.Graph
