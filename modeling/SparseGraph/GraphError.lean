import SparseGraph.Text.Quoted

namespace SparseGraph

/-!
# Faults of graphs and graph texts

* `CsrFault` — what is wrong with arrays or a table that should describe a graph;
* `Role` — what a word of a graph text stands for;
* `GraphError` — why no graph could be built or a vertex not be used, with its wording.
-/

/-- What is wrong with arrays or a table that should describe a graph. -/
inductive CsrFault where
  /-- There is no offset at all. -/
  | noOffset
  /-- The first offset is not 0. -/
  | firstOffset (first : Nat)
  /-- The last offset is not the number of edges. -/
  | lastOffset (last edges : Nat)
  /-- There are more or fewer weights than edges. -/
  | weightCount (weights edges : Nat)
  /-- The offset after that of `vertex` is smaller. -/
  | descent (vertex offset next : Nat)
  /-- The table declares a number of edges that it does not hold. -/
  | edgeCount (declared held : Nat)
  /-- The table declares fewer vertices than its edges use. -/
  | nodeCount (declared largest : Nat)
  /-- The table lacks a column. -/
  | missingColumn (name : String)
  /-- A column of the table does not hold 32-bit words. -/
  | columnType (name type : String)
deriving DecidableEq, Repr

/-- The wording of a fault. -/
def CsrFault.message : CsrFault → String
  | .noOffset => "row_offsets must not be empty"
  | .firstOffset first => s!"row_offsets[0] = {first}, expected 0"
  | .lastOffset last edges => s!"last offset {last} != number of edges {edges}"
  | .weightCount weights edges => s!"{weights} weights for {edges} edges"
  | .descent vertex offset next =>
    s!"row_offsets not monotone at vertex {vertex}: {offset} > {next}"
  | .edgeCount declared held =>
    s!"num_edges metadata is {declared} but the file holds {held} edges"
  | .nodeCount declared largest =>
    s!"num_nodes metadata is {declared} but edges reference vertex {largest}"
  | .missingColumn name => s!"missing {name} column"
  | .columnType name type => s!"{name} column is {type}, expected UInt32"

/-- What a word of a graph text stands for. -/
inductive Role where
  | header
  | vertexCount
  | edgeCount
  | offset
  | edgeTarget
  | edgeWeight
  | source
  | target
deriving DecidableEq, Repr

/-- What a role is called in a message. -/
def Role.name : Role → String
  | .header => "header"
  | .vertexCount => "vertex count"
  | .edgeCount => "edge count"
  | .offset => "offset"
  | .edgeTarget => "edge target"
  | .edgeWeight => "edge weight"
  | .source => "source"
  | .target => "target"

/-- Why no graph could be built, or why a vertex could not be used. -/
inductive GraphError where
  /-- The arrays or the table describe no graph. -/
  | malformed (fault : CsrFault)
  /-- A vertex is not among the `numNodes` vertices. -/
  | vertexOutOfBounds (vertex numNodes : Nat)
  /-- The first word of an adjacency text is none of its two headers. -/
  | unknownHeader (word : List Char)
  /-- The text ends where a word of this role is needed. -/
  | unexpectedEnd (role : Role)
  /-- The word on this line is no 32-bit numeral. -/
  | badToken (line : Nat) (word : List Char) (role : Role)
  /-- A count exceeds what 32-bit words can index. -/
  | tooLarge (count : Nat)
deriving DecidableEq, Repr

/-- The wording of an error. -/
def GraphError.message : GraphError → String
  | .malformed fault => s!"invalid CSR: {fault.message}"
  | .vertexOutOfBounds vertex numNodes =>
    s!"vertex {vertex} out of bounds (graph has {numNodes} vertices)"
  | .unknownHeader word =>
    s!"unknown adjacency header {Text.quoted word}" ++
      " (expected AdjacencyGraph or WeightedAdjacencyGraph)"
  | .unexpectedEnd role => s!"unexpected end of input while reading {role.name}"
  | .badToken line word role =>
    s!"line {line}: cannot parse {Text.quoted word} as {role.name}"
  | .tooLarge count => s!"graph too large: {count} exceeds u32 ids"

end SparseGraph
