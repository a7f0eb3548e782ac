import SparseGraph.Graph.Basic
import SparseGraph.Text.Words

namespace SparseGraph.Graph

open Text (Token tokens readWord digits)

/-!
# Adjacency text

A text of words: a header, the number of vertices `n`, the number of edges `m`, `n` offsets, `m`
targets and, under the weighted header, `m` weights. Words are parted by any blanks; what follows
the last needed word is ignored. Without weights every edge has weight 1.

* `adjacencyText` — a graph as text, one word a line;
* `ofAdjacencyText` — the graph of a text, or the first fault in it.
-/

/-- The header of a text, with or without weights. -/
def headerWord (weighted : Bool) : List Char :=
  (if weighted then "WeightedAdjacencyGraph" else "AdjacencyGraph").toList

/-! ### Writing -/

/-- The words of a graph in order. -/
def adjacencyWords (g : Graph) (weighted : Bool) : List (List Char) :=
  [headerWord weighted, digits g.numNodes, digits g.numEdges] ++
    (g.offsets.toList.take g.numNodes).map (digits ·.toNat) ++
    g.targets.toList.map (digits ·.toNat) ++
    (if weighted then g.weights.toList.map (digits ·.toNat) else [])

/-- The graph as text, one word a line. -/
def adjacencyText (g : Graph) (weighted : Bool) : List Char :=
  (g.adjacencyWords weighted).flatMap (· ++ ['\n'])

/-! ### Reading -/

/-- Read the header: whether weights follow. -/
def takeHeader : List Token → Except GraphError (Bool × List Token)
  | [] => .error (.unexpectedEnd .header)
  | t :: rest =>
    if t.text = headerWord false then .ok (false, rest)
    else if t.text = headerWord true then .ok (true, rest)
    else .error (.unknownHeader t.text)

/-- Read one number. -/
def takeWord (role : Role) : List Token → Except GraphError (UInt32 × List Token)
  | [] => .error (.unexpectedEnd role)
  | t :: rest =>
    match readWord t.text with
    | .ok w => .ok (w, rest)
    | .error _ => .error (.badToken t.line t.text role)

/-- Read `count` numbers of one role. -/
def takeWords (role : Role) : Nat → List Token → Except GraphError (List UInt32 × List Token)
  | 0, ts => .ok ([], ts)
  | count + 1, ts =>
    match takeWord role ts with
    | .error e => .error e
    | .ok (w, ts) =>
      match takeWords role count ts with
      | .error e => .error e
      | .ok (ws, ts) => .ok (w :: ws, ts)

/-- The graph that an adjacency text describes. The first fault is reported: of the words in their
    order, and if every word is good, of the arrays. -/
def ofAdjacencyText (text : List Char) : Except GraphError Graph := do
  let (weighted, ts) ← takeHeader (tokens text)
  let (n, ts) ← takeWord .vertexCount ts
  let (m, ts) ← takeWord .edgeCount ts
  let (offsets, ts) ← takeWords .offset n.toNat ts
  let (targets, ts) ← takeWords .edgeTarget m.toNat ts
  let (weights, _) ←
    if weighted then takeWords .edgeWeight m.toNat ts
    else .ok (List.replicate m.toNat 1, ts)
  ofParts (offsets ++ [m]).toArray targets.toArray weights.toArray

end SparseGraph.Graph
