import SparseGraph.Graph.Build
import SparseGraph.Text.Words

namespace SparseGraph.Graph

open Text (maxWord maxLong NumeralFault readNumeral trim digits)

/-!
# Edge lists as tables

A table holds an edge in each row, in the columns `source`, `target` and `weight`, which are found
by name. Its rows come in batches. The table may declare the numbers of vertices and edges beside
the rows, so that vertices without edges are kept and lost rows are noticed.

* `Column`, `Batch`, `Table` — a table;
* `toTable` — a graph as table;
* `ofTable` — the graph of a table, or the first fault in it.
-/

/-- The types of columns other than 32-bit words. -/
inductive ColumnType where
  | uint8
  | uint16
  | uint64
  | int8
  | int16
  | int32
  | int64
  | float32
  | float64
  | utf8
deriving DecidableEq, Repr

/-- What a type is called in a message. -/
def ColumnType.name : ColumnType → String
  | .uint8 => "UInt8"
  | .uint16 => "UInt16"
  | .uint64 => "UInt64"
  | .int8 => "Int8"
  | .int16 => "Int16"
  | .int32 => "Int32"
  | .int64 => "Int64"
  | .float32 => "Float32"
  | .float64 => "Float64"
  | .utf8 => "Utf8"

/-- The contents of a column: 32-bit words, or so many values of another type. -/
inductive ColumnData where
  | words (values : List UInt32)
  | other (type : ColumnType) (count : Nat)
deriving DecidableEq, Repr

/-- The number of values in a column. -/
def ColumnData.size : ColumnData → Nat
  | words values => values.length
  | other _ count => count

/-- A named column. -/
structure Column where
  name : String
  data : ColumnData
deriving DecidableEq, Repr

/-- Some rows of a table, by columns of one size. -/
structure Batch where
  rows : Nat
  columns : List Column
  size_eq : ∀ c ∈ columns, c.data.size = rows
deriving DecidableEq

/-- A table: what it declares, and its rows in batches. -/
structure Table where
  metadata : List (String × Option String)
  batches : List Batch
deriving DecidableEq

/-- The table of these columns, if they have one size. Its rows, if there are any, form a single
    batch. -/
def Table.ofColumns? (metadata : List (String × Option String)) (columns : List Column) :
    Option Table :=
  let rows := (columns.head?.map (·.data.size)).getD 0
  if h : ∀ c ∈ columns, c.data.size = rows then
    some ⟨metadata, if rows = 0 then [] else [⟨rows, columns, h⟩]⟩
  else none

/-- What a table declares. -/
inductive Declaration where
  | numNodes
  | numEdges
deriving DecidableEq, Repr

/-- The name under which a number is declared. -/
def Declaration.key : Declaration → String
  | .numNodes => "num_nodes"
  | .numEdges => "num_edges"

/-- Why a table gives no graph. -/
inductive TableError where
  | graph (cause : GraphError)
  /-- What is declared is no number. -/
  | declaration (which : Declaration) (value : String) (fault : NumeralFault)
deriving DecidableEq, Repr

/-! ### Writing -/

/-- The graph as a table, the edges by source. -/
def toTable (g : Graph) : Table where
  metadata :=
    [(Declaration.numNodes.key, some (String.ofList (digits g.numNodes))),
      (Declaration.numEdges.key, some (String.ofList (digits g.numEdges)))]
  batches := [{
    rows := g.edges.length
    columns :=
      [⟨"source", .words (g.edges.map Edge.source)⟩, ⟨"target", .words (g.edges.map Edge.target)⟩,
        ⟨"weight", .words (g.edges.map Edge.weight)⟩]
    size_eq := by simp [ColumnData.size] }]

/-! ### Reading -/

/-- The number that a table declares: under the first entry of that name, blanks at its ends
    aside. -/
def Table.declared (t : Table) (which : Declaration) : Except TableError (Option Nat) :=
  match (t.metadata.find? (·.1 == which.key)).bind Prod.snd with
  | none => .ok none
  | some value =>
    match readNumeral maxLong (trim value.toList) with
    | .error fault => .error (.declaration which value fault)
    | .ok n => if maxWord < n then .error (.graph (.tooLarge n)) else .ok (some n)

/-- The words of the column with this name. -/
def Batch.words (b : Batch) (name : String) : Except GraphError (List UInt32) :=
  match b.columns.find? (·.name == name) with
  | none => .error (.malformed (.missingColumn name))
  | some ⟨_, .words values⟩ => .ok values
  | some ⟨_, .other type _⟩ => .error (.malformed (.columnType name type.name))

/-- The edges whose parts stand in three columns. -/
def zipEdges : List UInt32 → List UInt32 → List UInt32 → List Edge
  | s :: ss, t :: ts, w :: ws => ⟨s, t, w⟩ :: zipEdges ss ts ws
  | _, _, _ => []

/-- The edges of a batch. -/
def Batch.edges (b : Batch) : Except GraphError (List Edge) := do
  let sources ← b.words "source"
  let targets ← b.words "target"
  let weights ← b.words "weight"
  return zipEdges sources targets weights

/-- The edges of all batches in order. -/
def Table.edges (t : Table) : Except GraphError (List Edge) := do
  return (← t.batches.mapM Batch.edges).flatten

/-- The graph of edges for which these numbers are declared. -/
def ofDeclared (numNodes numEdges : Option Nat) (edges : List Edge) : Except GraphError Graph :=
  if numEdges.any (· ≠ edges.length) then
    .error (.malformed (.edgeCount (numEdges.getD 0) edges.length))
  else
    match numNodes with
    | none => ofEdgeList edges
    | some n =>
      if n < nodesNeeded edges then .error (.malformed (.nodeCount n (nodesNeeded edges - 1)))
      else ofEdges n edges

/-- The graph of a table. The first fault is reported: of the declared numbers, of the columns, of
    the number of edges, and last of the vertices. -/
def ofTable (t : Table) : Except TableError Graph := do
  let numNodes ← t.declared .numNodes
  let numEdges ← t.declared .numEdges
  let edges ← t.edges.mapError .graph
  (ofDeclared numNodes numEdges edges).mapError .graph

end SparseGraph.Graph
