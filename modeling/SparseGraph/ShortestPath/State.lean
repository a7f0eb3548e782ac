import SparseGraph.ShortestPath.DeltaStepping

namespace SparseGraph.ShortestPath

/-!
# Distances over several runs

Distances can be kept and used for further runs. A run needs a source that stands at distance 0 and
distances for just the vertices of the graph; otherwise nothing changes.

* `State` — the distance of each vertex;
* `State.reset` — forget all distances but that of a source;
* `State.run` — one run from a source.
-/

/-- The distance of each vertex. -/
structure State where
  distances : Array Nat
deriving DecidableEq, Repr

/-- Why a run cannot begin. -/
inductive RunError where
  /-- The source is no vertex of the graph. -/
  | source (cause : GraphError)
  /-- The state belongs to a graph with another number of vertices. -/
  | size
  /-- The source does not stand at distance 0. -/
  | notReset
deriving DecidableEq, Repr

namespace State

/-- No vertex is reached. -/
def new (n : Nat) : State :=
  ⟨Array.replicate n infinity⟩

/-- Only `source` is reached; nothing is, if it is no vertex. -/
def reset (s : State) (source : Nat) : State :=
  ⟨initialDistances s.distances.size source⟩

/-- The distance of a vertex. -/
def distance? (s : State) (v : Nat) : Option Nat :=
  s.distances[v]?

/-- Relax from `source` on until nothing waits. -/
def run (g : Graph) (source shift : Nat) (s : State) : Except RunError (Tally × State) :=
  if g.numNodes ≤ source then .error (.source (.vertexOutOfBounds source g.numNodes))
  else if s.distances.size ≠ g.numNodes then .error .size
  else if s.distance? source ≠ some 0 then .error .notReset
  else
    let p := (Progress.start shift source s.distances).finish g
    .ok (p.tally, ⟨p.distances⟩)

end State

end SparseGraph.ShortestPath
