import SparseGraph.ShortestPath.DeltaStepping

namespace SparseGraph.ShortestPath

/-!
# Drains with buffers

The items of a bucket are visited in pieces. Each piece writes what it produces and what it finds stale
into a buffer of its own, and the buffers are merged into the worklist afterwards. What was produced is
then counted by how much longer the worklist gets, and the rest of a buffer was stale.

* `Note` — what is written into a buffer;
* `Piece` — the distances in the course of a piece, and its buffer;
* `fillBuffers` — the pieces of a bucket one after another;
* `Merging.merge` — one buffer is merged and counted;
* `Progress.drainBuffered?`, `Progress.Finishes` — one drain, and drains until nothing waits.
-/

/-- What is written into a buffer: an item that was produced, or one that was stale. -/
structure Note where
  item : Item
  relaxed : Bool
deriving DecidableEq, Repr

/-- The item of a note, if it was produced. -/
def Note.produced? (n : Note) : Option Item :=
  if n.relaxed then some n.item else none

/-- The distances in the course of a piece, and what it has written so far. -/
structure Piece where
  distances : Array Nat
  buffer : Array Note

/-- Bring `target` to the distance `candidate` if that is closer, and write it down. -/
def Piece.relax (p : Piece) (target candidate : Nat) : Piece :=
  match lowerAt? p.distances target candidate with
  | some distances => ⟨distances, p.buffer.push ⟨⟨target, candidate⟩, true⟩⟩
  | none => p

/-- Relax the edges out of the vertex of an item from its present distance; an item filed at a greater
    distance is stale, and is written down as such. -/
def Piece.visit (g : Graph) (p : Piece) (item : Item) : Piece :=
  let current := p.distances.getD item.vertex 0
  if current < item.distance then { p with buffer := p.buffer.push ⟨item, false⟩ }
  else
    (g.arcs item.vertex).foldl (fun p a => p.relax a.target.toNat (through current a.weight.toNat)) p

/-- The pieces of a bucket one after another: the distances after them, and the buffer of each. -/
def fillBuffers (g : Graph) : Array Nat → List (List Item) → Array Nat × List (Array Note)
  | distances, [] => (distances, [])
  | distances, items :: pieces =>
    let p := items.foldl (Piece.visit g) ⟨distances, #[]⟩
    let later := fillBuffers g p.distances pieces
    (later.1, p.buffer :: later.2)

/-- Waiting items and counts while buffers are merged. -/
structure Merging (shift : Nat) where
  pending : Worklist Item (fun item => bucketOf shift item.distance)
  tally : Tally

/-- Merge a buffer. As many items were produced as the worklist gets longer by, and the other notes
    were stale. -/
def Merging.merge {shift : Nat} (m : Merging shift) (buffer : Array Note) : Merging shift :=
  let pending := m.pending.extend (buffer.toList.filterMap Note.produced?)
  let pushed := pending.size - m.pending.size
  ⟨pending, { m.tally with
    relaxations := m.tally.relaxations + pushed
    stale := m.tally.stale + (buffer.size - pushed) }⟩

/-- Drain the least bucket in the pieces that `cut` makes of it. -/
def Progress.drainBuffered? {shift : Nat} (g : Graph) (cut : List Item → List (List Item))
    (p : Progress shift) : Option (Progress shift) :=
  p.pending.popMin?.map fun (_, items, rest) =>
    let filled := fillBuffers g p.distances (cut items.toList)
    let counted : Tally := { p.tally with rounds := p.tally.rounds + 1 }
    let merged := filled.2.foldl Merging.merge ⟨rest, counted⟩
    ⟨filled.1, merged.pending, merged.tally⟩

/-- Buckets are drained until nothing waits, each in the pieces that `cut` makes of it. The pieces may
    be others at each drain, since `cut` is told how far the run has come. -/
inductive Progress.Finishes {shift : Nat} (g : Graph)
    (cut : Progress shift → List Item → List (List Item)) : Progress shift → Progress shift → Prop
  | done {p : Progress shift} (h : p.pending.popMin? = none) : Finishes g cut p p
  | drain {p q r : Progress shift} (h : p.drainBuffered? g (cut p) = some q)
      (later : Finishes g cut q r) : Finishes g cut p r

end SparseGraph.ShortestPath
