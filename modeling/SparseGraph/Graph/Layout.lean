import SparseGraph.Graph.Build

namespace SparseGraph

open Text (maxWord)

/-!
# Graphs as they are kept

A graph is kept as its three arrays together with its out-degrees and the number of its vertices.
Here these are filled and read in single steps: each reads or writes one word or takes one slice. An
access beyond an array ends the work without a result, as does a sum or a difference that is no word.

* `Stop` — why there is no result;
* `wordAt`, `setWord`, `slice`, `addWords`, `subtractWords` — the single steps;
* `Layout` — a graph as it is kept;
* `Layout.ofEdges` — filled from an edge list, by counting the edges of each source;
* `Layout.ofParts` — filled from given arrays;
* `Layout.neighbors`, `Layout.rowOf`, `Layout.outDegree` — what is read of a vertex;
* `Graph.layout`, `kept` — how a graph, and the attempt to build one, is kept.
-/

/-- Why there is no result. -/
inductive Stop where
  /-- The input is refused. -/
  | refused (error : GraphError)
  /-- A step cannot be taken. -/
  | stuck
deriving DecidableEq, Repr

/-! ### Single steps -/

/-- The word at a place, which the array must have. -/
def wordAt (words : Array UInt32) (i : Nat) : Except Stop UInt32 :=
  match words[i]? with
  | some w => .ok w
  | none => .error .stuck

/-- Write a word to a place, which the array must have. -/
def setWord (words : Array UInt32) (i : Nat) (w : UInt32) : Except Stop (Array UInt32) :=
  if i < words.size then .ok (words.setIfInBounds i w) else .error .stuck

/-- The words from one place up to another, which must not come before it or be beyond the array. -/
def slice (words : Array UInt32) (first last : Nat) : Except Stop (Array UInt32) :=
  if first ≤ last ∧ last ≤ words.size then .ok (words.extract first last) else .error .stuck

/-- The sum of two words, which must be a word. -/
def addWords (a b : UInt32) : Except Stop UInt32 :=
  if a.toNat + b.toNat ≤ maxWord then .ok (a + b) else .error .stuck

/-- The difference of two words, of which the second must not be greater. -/
def subtractWords (a b : UInt32) : Except Stop UInt32 :=
  if b ≤ a then .ok (a - b) else .error .stuck

/-- A graph as it is kept. -/
structure Layout where
  offsets : Array UInt32
  targets : Array UInt32
  weights : Array UInt32
  /-- How many edges there are out of each vertex. -/
  degrees : Array UInt32
  numNodes : Nat
deriving DecidableEq, Repr

namespace Layout

/-- The arrays that describe the graph. -/
def components (l : Layout) : Array UInt32 × Array UInt32 × Array UInt32 :=
  (l.offsets, l.targets, l.weights)

/-! ### Filling from an edge list -/

/-- Refuse a word that is none of the vertices `0, …, n - 1`. -/
def requireVertex (n : Nat) (v : UInt32) : Except Stop Unit :=
  if n ≤ v.toNat then .error (.refused (.vertexOutOfBounds v.toNat n)) else .ok ()

/-- Count one more edge of its source, once both of its ends are known to be vertices. -/
def countEdge (n : Nat) (degrees : Array UInt32) (e : Edge) : Except Stop (Array UInt32) := do
  requireVertex n e.source
  requireVertex n e.target
  let count ← wordAt degrees e.source.toNat
  let count ← addWords count 1
  setWord degrees e.source.toNat count

/-- The offset behind the edges of one more vertex, with those before it. -/
def pushOffset (offsets : Array UInt32 × UInt32) (degree : UInt32) :
    Except Stop (Array UInt32 × UInt32) := do
  let offset ← addWords offsets.2 degree
  return (offsets.1.push offset, offset)

/-- Targets and weights that are being filled, and where the next edge of each vertex goes. -/
structure Filling where
  cursors : Array UInt32
  targets : Array UInt32
  weights : Array UInt32
deriving DecidableEq, Repr

/-- Put one more edge where its source has its next one, and move on there. -/
def Filling.place (f : Filling) (e : Edge) : Except Stop Filling := do
  let slot ← wordAt f.cursors e.source.toNat
  let targets ← setWord f.targets slot.toNat e.target
  let weights ← setWord f.weights slot.toNat e.weight
  let next ← addWords slot 1
  let cursors ← setWord f.cursors e.source.toNat next
  return ⟨cursors, targets, weights⟩

/-- The graph with the vertices `0, …, n - 1` and these edges: the edges of each source are counted,
    the counts are added up to offsets, and each edge is put where its source has its next one. -/
def ofEdges (n : Nat) (edges : List Edge) : Except Stop Layout :=
  if maxWord < n then .error (.refused (.tooLarge n))
  else if maxWord < edges.length then .error (.refused (.tooLarge edges.length))
  else do
    let degrees ← edges.foldlM (countEdge n) (Array.replicate n 0)
    let summed ← degrees.toList.foldlM pushOffset (#[0], 0)
    let cursors ← slice summed.1 0 n
    let unfilled := Array.replicate edges.length 0
    let filled ← edges.foldlM Filling.place ⟨cursors, unfilled, unfilled⟩
    return ⟨summed.1, filled.targets, filled.weights, degrees, n⟩

/-! ### Filling from given arrays -/

/-- The difference of each word from the one before it. -/
def differences (words : List UInt32) : Except Stop (List UInt32) :=
  (words.zip words.tail).mapM fun w => subtractWords w.2 w.1

/-- The graph with these offsets, targets and weights, of which the first fault is reported. -/
def ofParts (offsets targets weights : Array UInt32) : Except Stop Layout :=
  match offsets[0]?, offsets.back? with
  | some first, some last =>
    if first ≠ 0 then .error (.refused (.malformed (.firstOffset first.toNat)))
    else if last.toNat ≠ targets.size then
      .error (.refused (.malformed (.lastOffset last.toNat targets.size)))
    else if weights.size ≠ targets.size then
      .error (.refused (.malformed (.weightCount weights.size targets.size)))
    else
      match Graph.firstDescent? offsets.toList with
      | some v => do
        let offset ← wordAt offsets v
        let next ← wordAt offsets (v + 1)
        .error (.refused (.malformed (.descent v offset.toNat next.toNat)))
      | none =>
        match targets.find? (fun t => offsets.size - 1 ≤ t.toNat) with
        | some t => .error (.refused (.vertexOutOfBounds t.toNat (offsets.size - 1)))
        | none => do
          let degrees ← differences offsets.toList
          return ⟨offsets, targets, weights, degrees.toArray, offsets.size - 1⟩
  | _, _ => .error (.refused (.malformed .noOffset))

/-! ### Reading -/

/-- Where the edges of a vertex begin and end. -/
def bounds (l : Layout) (v : Nat) : Except Stop (Nat × Nat) := do
  let first ← wordAt l.offsets v
  let last ← wordAt l.offsets (v + 1)
  return (first.toNat, last.toNat)

/-- The targets of the edges out of a vertex. -/
def neighbors (l : Layout) (v : Nat) : Except Stop (Array UInt32) := do
  let row ← l.bounds v
  slice l.targets row.1 row.2

/-- The targets and the weights of the edges out of a vertex. -/
def rowOf (l : Layout) (v : Nat) : Except Stop (Array UInt32 × Array UInt32) := do
  let row ← l.bounds v
  let targets ← slice l.targets row.1 row.2
  let weights ← slice l.weights row.1 row.2
  return (targets, weights)

/-- How many edges there are out of a vertex. -/
def outDegree (l : Layout) (v : Nat) : Except Stop UInt32 :=
  wordAt l.degrees v

end Layout

/-! ### How graphs are kept -/

/-- How a graph is kept. -/
def Graph.layout (g : Graph) : Layout where
  offsets := g.offsets
  targets := g.targets
  weights := g.weights
  degrees := ((List.range g.numNodes).map fun v => UInt32.ofNat (g.degree v)).toArray
  numNodes := g.numNodes

/-- The graph is kept if it could be built, and otherwise the input is refused. -/
def kept (result : Except GraphError Graph) : Except Stop Layout :=
  (result.map Graph.layout).mapError .refused

end SparseGraph
