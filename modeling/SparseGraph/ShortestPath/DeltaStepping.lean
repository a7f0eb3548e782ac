import SparseGraph.Cell
import SparseGraph.Graph.Basic
import SparseGraph.ShortestPath.Distance
import SparseGraph.Worklist

namespace SparseGraph.ShortestPath

/-!
# Delta stepping

Vertices whose distance dropped wait in buckets by distance. The least bucket is drained as a
whole: each of its items relaxes the edges out of its vertex, unless the vertex has come closer in
the meantime. Vertices that come closer wait again, perhaps in the bucket just drained. The run
ends when nothing waits.

* `Item` — a vertex that waits, with the distance it had when it was filed;
* `Sweep` — the distances in the course of a drain, and what the drain has produced;
* `Progress` — distances, waiting items and counts between two drains;
* `Progress.drain?` — one drain;
* `Progress.finish` — drains until nothing waits. It ends because the sum of the distances and the
  number of waiting items, taken together, drop with each drain;
* `Progress.drains` — the buckets drained on the way;
* `deltaStep` — the distances from a source.
-/

/-- A vertex that waits, with the distance it had when it was filed. -/
structure Item where
  vertex : Nat
  distance : Nat
deriving DecidableEq, Repr

/-- The distances in the course of a drain, the items that it has produced so far, and how many of
    its items were stale. -/
structure Sweep where
  distances : Array Nat
  produced : Array Item
  stale : Nat

/-- Bring `target` to the distance `candidate` if that is closer. -/
def Sweep.relax (s : Sweep) (target candidate : Nat) : Sweep :=
  match lowerAt? s.distances target candidate with
  | some distances => { s with distances, produced := s.produced.push ⟨target, candidate⟩ }
  | none => s

/-- Relax edges, in the given order, out of a vertex at a distance. -/
def Sweep.relaxArcs (s : Sweep) (distance : Nat) (arcs : List Arc) : Sweep :=
  arcs.foldl (fun s a => s.relax a.target.toNat (through distance a.weight.toNat)) s

/-- Relax the edges out of the vertex of an item from its present distance; an item filed at a
    greater distance is stale. -/
def Sweep.visit (g : Graph) (s : Sweep) (item : Item) : Sweep :=
  let current := s.distances.getD item.vertex 0
  if current < item.distance then { s with stale := s.stale + 1 }
  else s.relaxArcs current (g.arcs item.vertex)

/-- Visit the items of a bucket in order. -/
def drain (g : Graph) (distances : Array Nat) (items : List Item) : Sweep :=
  items.foldl (Sweep.visit g) ⟨distances, #[], 0⟩

/-! ### Draining lowers distances -/

/-- Each item produced has cost at least one unit of distance. -/
def Sweep.potential (s : Sweep) : Nat :=
  total s.distances.toList + s.produced.size

theorem Sweep.potential_relax (s : Sweep) (target candidate : Nat) :
    (s.relax target candidate).potential ≤ s.potential := by
  unfold relax potential
  split
  next h =>
    have := total_lt_of_lowerAt? h
    simp only [Array.size_push]
    omega
  next => exact Nat.le_refl _

theorem Sweep.potential_relaxArcs (s : Sweep) (distance : Nat) (arcs : List Arc) :
    (s.relaxArcs distance arcs).potential ≤ s.potential := by
  induction arcs generalizing s with
  | nil => exact Nat.le_refl _
  | cons a arcs ih => exact Nat.le_trans (ih _) (potential_relax ..)

theorem Sweep.potential_visit (g : Graph) (s : Sweep) (item : Item) :
    (s.visit g item).potential ≤ s.potential := by
  unfold visit
  dsimp only
  split
  · exact Nat.le_refl _
  · exact potential_relaxArcs ..

theorem potential_drain (g : Graph) (distances : Array Nat) (items : List Item) :
    (drain g distances items).potential ≤ total distances.toList := by
  have main (s : Sweep) : (items.foldl (Sweep.visit g) s).potential ≤ s.potential := by
    induction items generalizing s with
    | nil => exact Nat.le_refl _
    | cons i items ih => exact Nat.le_trans (ih _) (Sweep.potential_visit ..)
  exact main ⟨distances, #[], 0⟩

/-! ### A run -/

/-- What a run has done: drains, vertices brought closer, and stale items. -/
structure Tally where
  rounds : Nat := 0
  relaxations : Nat := 0
  stale : Nat := 0
deriving DecidableEq, Repr

/-- A bucket that is drained: its number, its items, and the distances before the drain. -/
structure Drain where
  bucket : Nat
  items : List Item
  distances : Array Nat
deriving DecidableEq, Repr

/-- Distances, waiting items and counts between two drains. -/
structure Progress (shift : Nat) where
  distances : Array Nat
  pending : Worklist Item (fun item => bucketOf shift item.distance)
  tally : Tally

namespace Progress

variable {shift : Nat}

/-- The start of a run: the source waits. -/
def start (shift source : Nat) (distances : Array Nat) : Progress shift :=
  ⟨distances, Worklist.empty.push ⟨source, 0⟩, {}⟩

/-- Drain the least bucket: what is drained, and the progress after it. -/
def drain? (g : Graph) (p : Progress shift) : Option (Drain × Progress shift) :=
  p.pending.popMin?.map fun (bucket, items, rest) =>
    let s := drain g p.distances items.toList
    (⟨bucket, items.toList, p.distances⟩, {
      distances := s.distances
      pending := rest.extend s.produced.toList
      tally := {
        rounds := p.tally.rounds + 1
        relaxations := p.tally.relaxations + s.produced.size
        stale := p.tally.stale + s.stale } })

/-- What a run can still do at most. -/
def measure (p : Progress shift) : Nat :=
  total p.distances.toList + p.pending.size

theorem measure_drain? {g : Graph} {p q : Progress shift} {d : Drain}
    (h : p.drain? g = some (d, q)) : q.measure < p.measure := by
  unfold drain? at h
  obtain ⟨⟨i, items, rest⟩, hpop, h⟩ := Option.map_eq_some_iff.1 h
  cases h
  -- At least one item leaves, and each item that comes costs a unit of distance.
  have hsize := Worklist.size_popMin? hpop
  have hdrain := potential_drain g p.distances items.toList
  simp only [Sweep.potential] at hdrain
  simp only [measure, Worklist.size_extend, Array.length_toList]
  omega

/-- Drain until nothing waits. -/
def finish (g : Graph) (p : Progress shift) : Progress shift :=
  match _h : p.drain? g with
  | none => p
  | some (_, q) => q.finish g
termination_by p.measure
decreasing_by exact measure_drain? _h

/-- The buckets drained until nothing waits, in order. -/
def drains (g : Graph) (p : Progress shift) : List Drain :=
  match _h : p.drain? g with
  | none => []
  | some (d, q) => d :: q.drains g
termination_by p.measure
decreasing_by exact measure_drain? _h

end Progress

/-- Distances from a source, and how they were found. -/
structure Result where
  distances : Array Nat
  tally : Tally
deriving DecidableEq, Repr

/-- The distances from `source`, found with buckets of width `2 ^ shift`. -/
def deltaStep (g : Graph) (source shift : Nat) : Except GraphError Result :=
  if source < g.numNodes then
    let p := (Progress.start shift source (initialDistances g.numNodes source)).finish g
    .ok ⟨p.distances, p.tally⟩
  else .error (.vertexOutOfBounds source g.numNodes)

end SparseGraph.ShortestPath
