import SparseGraph.CommandLine.BenchArgs
import SparseGraph.CommandLine.Plan
import SparseGraph.Files.GraphFile
import SparseGraph.Graph.Symmetry

namespace SparseGraph.CommandLine

open Files (Store Format loadEdgeList saveGraph)

/-!
# Conversion

* `convert` — an edge list into a graph file in the format that its path suggests.
-/

/-- The arguments for a conversion. -/
def conversionGrammar : Grammar :=
  ⟨[{ name := "no-weights", kind := .switch }, { name := "symmetrize", kind := .switch }] ++
      messageOptions ++ informationOptions,
    [{ name := "INPUT", kind := path }, { name := "OUTPUT", kind := path }]⟩

/-- The graph to be written: that of an edge list, made symmetric if asked. -/
def convertedGraph (store : Store) (input : String) (symmetrize : Bool) : Except Failure Graph := do
  let g ← (loadEdgeList store input).mapError (Failure.within (.reading input))
  if symmetrize then g.symmetrized.mapError Failure.ofGraphError else return g

/-- Convert an edge list into a graph file. -/
def convert (store : Store) (given : Given) : Outcome :=
  let output := (given.value? "OUTPUT").getD ""
  match convertedGraph store ((given.value? "INPUT").getD "") (given.has "symmetrize") with
  | .error failure => ⟨[], .failed failure, store⟩
  | .ok g =>
    let sizes := s!"Vertices: {g.numNodes}, Edges: {g.numEdges}"
    match saveGraph store output (.ofPath output) (!given.has "no-weights") g with
    | .error failure => ⟨[sizes], .failed failure, store⟩
    | .ok store => ⟨[sizes, "Done!"], .success, store⟩

end SparseGraph.CommandLine
