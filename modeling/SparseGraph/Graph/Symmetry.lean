import SparseGraph.Graph.Build

namespace SparseGraph.Graph

/-!
# Symmetric graphs

A graph is symmetric if each edge has an edge back. Symmetry concerns the ordered pairs of
endpoints only, so both functions here bring the pairs into one canonical list: sorted, each pair
once.

* `firsts` — the first of each run of neighbours that are alike;
* `isSymmetric` — whether every edge has an edge back;
* `symmetrized` — the graph with each edge in both directions, parallel edges merged into the
  lightest.
-/

/-- The first of each run of neighbours that are alike, in a list that begins with `a`. -/
def firstsFrom {α : Type} (alike : α → α → Bool) (a : α) : List α → List α
  | [] => [a]
  | b :: rest => if alike a b then firstsFrom alike a rest else a :: firstsFrom alike b rest

/-- The first of each run of neighbours that are alike. -/
def firsts {α : Type} (alike : α → α → Bool) : List α → List α
  | [] => []
  | a :: rest => firstsFrom alike a rest

/-- The pairs of a list in order, each once. -/
def pairSet (pairs : List (UInt32 × UInt32)) : List (UInt32 × UInt32) :=
  firsts (· == ·) (pairs.mergeSort pairLe)

/-- The source and target of each edge. -/
def pairs (g : Graph) : List (UInt32 × UInt32) :=
  g.edges.map Edge.ends

/-- Whether every edge has an edge back: the pairs of endpoints and the reversed pairs are the same
    set. -/
def isSymmetric (g : Graph) : Bool :=
  pairSet g.pairs == pairSet (g.pairs.map Prod.swap)

/-- Edges by their ends and then their weight. -/
def edgeLe (e f : Edge) : Bool :=
  if e.ends = f.ends then e.weight ≤ f.weight else pairLe e.ends f.ends

/-- Whether two edges join the same vertices in the same direction. -/
def sameEnds (e f : Edge) : Bool :=
  e.ends == f.ends

/-- The edges of both directions in order, of those with the same ends only the lightest. -/
def mergedEdges (g : Graph) : List Edge :=
  -- Edges with the same ends stand together, the lightest first.
  firsts sameEnds ((g.edges.flatMap fun e => [e, e.reverse]).mergeSort edgeLe)

/-- The graph with each edge in both directions. Edges with the same ends are merged into the
    lightest, and the edges out of a vertex are ordered by target. -/
def symmetrized (g : Graph) : Except GraphError Graph :=
  ofEdges g.numNodes g.mergedEdges

end SparseGraph.Graph
