import SparseGraph.Graph.Build
import SparseGraph.Text.Words

namespace SparseGraph.Graph

open Text (lines words trim readWord)

/-!
# Edge lists as text

A line gives an edge by the words for its source and target; further words are ignored. Lines that
begin with `#` are comments, and lines with fewer than two words are skipped. All edges have weight
1, and the edges out of a vertex are ordered by target.

* `dataLines` — the lines that give edges;
* `ofEdgeListText` — the graph of a text, or the first fault in it.
-/

/-- A line that gives an edge: its number and the words for the two ends. -/
structure DataLine where
  line : Nat
  source : List Char
  target : List Char
deriving DecidableEq, Repr

/-- The line as a data line, unless it is a comment or has fewer than two words. -/
def dataLine? (text : List Char) (line : Nat) : Option DataLine :=
  if (trim text).head? = some '#' then none
  else
    match words text with
    | source :: target :: _ => some ⟨line, source, target⟩
    | _ => none

/-- The lines of a text that give edges. -/
def dataLines (text : List Char) : List DataLine :=
  ((lines text).zipIdx 1).filterMap fun (l, number) => dataLine? l number

/-- The vertex that a word on a line denotes. -/
def readVertex (line : Nat) (word : List Char) (role : Role) : Except GraphError UInt32 :=
  match readWord word with
  | .ok v => .ok v
  | .error _ => .error (.badToken line word role)

/-- The edge that a data line gives. -/
def DataLine.edge (l : DataLine) : Except GraphError Edge := do
  let source ← readVertex l.line l.source .source
  let target ← readVertex l.line l.target .target
  return ⟨source, target, 1⟩

/-- The graph that a text gives edge by edge. The first fault is reported: of the words in their
    order, and then of the edges. -/
def ofEdgeListText (text : List Char) : Except GraphError Graph := do
  let edges ← (dataLines text).mapM DataLine.edge
  ofEdgeList (edges.mergeSort fun e f => pairLe e.ends f.ends)

end SparseGraph.Graph
