import SparseGraph.Proofs.Graph.TableContents

namespace SparseGraph.Graph

open Text (digits maxWord trim)

/-!
# Tables read back

A table that declares the numbers of a graph and holds its edges gives that graph, in whatever
batches the rows come. The table of a graph is one.

* `Table.declared_of_digits` — a number that was declared is read;
* `Table.edges_toTable` — the rows of the table of a graph are the edges that were written;
* `ofTable_of_edges` — the graph of a table that tells all of a graph;
* `ofTable_toTable` — the table of a graph gives the graph.
-/

variable {g : Graph} {n : Nat} {t : Table} {which : Declaration}

/-! ### What is declared -/

/-- **A declared number is read.** -/
theorem Table.declared_of_digits (hn : n ≤ maxWord)
    (h : textUnder? t.metadata which.key = some (String.ofList (digits n))) :
    t.declared which = .ok (some n) := by
  refine declared_eq_ok_iff.2 (.number h ?_ hn)
  rw [String.toList_ofList, Text.trim_eq_self fun c hc => Text.isBlank_eq_false_of_mem_digits hc]
  exact Text.denotes_digits n

/-! ### Rows -/

/-- **The rows of a table are the edges that were written.** -/
theorem Table.edges_toTable (g : Graph) : g.toTable.edges = .ok g.edges := by
  have hbatches : List.Forall₂ (fun b es => Batch.edges b = .ok es) g.toTable.batches
      [zipEdges (g.edges.map Edge.source) (g.edges.map Edge.target) (g.edges.map Edge.weight)] :=
    .cons (Batch.edges_of_words rfl rfl rfl) .nil
  rw [edges_of_batches hbatches, List.flatten_singleton, zipEdges_map]

/-! ### The graph -/

/-- **A table that tells all of a graph** gives that graph. -/
theorem ofTable_of_edges (hn : g.numNodes ≤ maxWord)
    (hnodes : t.declared .numNodes = .ok (some g.numNodes))
    (hcount : t.declared .numEdges = .ok (some g.numEdges)) (hedges : t.edges = .ok g.edges) :
    ofTable t = .ok g := by
  -- Vertices without edges make the declared number greater than what the edges need.
  have hneeded : nodesNeeded g.edges ≤ g.numNodes :=
    nodesNeeded_le_iff.2 fun e he => ends_lt_of_mem_edges hn he
  have hof : ofDeclared (some g.numNodes) (some g.numEdges) g.edges = .ok g :=
    ofDeclared_eq_ok_iff.2 ⟨fun m hm => by cases hm; exact (length_edges hn).symm,
      fun n h => Option.some.inj h ▸ hneeded, ofEdges_edges hn⟩
  exact ofTable_eq_ok_iff.2 ⟨_, _, _, Table.declared_eq_ok_iff.1 hnodes,
    Table.declared_eq_ok_iff.1 hcount, hedges, hof⟩

/-- **The table of a graph gives the graph.** -/
theorem ofTable_toTable (hn : g.numNodes ≤ maxWord) : ofTable g.toTable = .ok g :=
  ofTable_of_edges hn (Table.declared_of_digits hn rfl)
    (Table.declared_of_digits g.numEdges_le rfl) (Table.edges_toTable g)

end SparseGraph.Graph
