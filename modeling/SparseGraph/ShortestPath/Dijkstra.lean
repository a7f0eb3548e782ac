import SparseGraph.Cell
import SparseGraph.Graph.Basic
import SparseGraph.ShortestPath.Distance

namespace SparseGraph.ShortestPath

/-!
# Dijkstra's algorithm

Reached vertices wait in a queue by cost. The first entry is taken out; if its cost is still the
distance of its vertex, the edges out of the vertex are relaxed.

* `Entry`, `enqueue` — an entry of the queue, and insertion in order;
* `Search` — distances and queue;
* `Search.next?` — take out and handle one entry;
* `Search.finish`, `Search.taken` — handle entries until none waits, and the entries taken out on
  the way;
* `dijkstra` — the distances from a source.
-/

/-- A reached vertex and what it costs to reach it. -/
structure Entry where
  cost : Nat
  node : Nat
deriving DecidableEq, Repr

/-- The order of the queue: the least cost first, and of several the greatest vertex. -/
def Entry.before (a b : Entry) : Bool :=
  a.cost < b.cost || (a.cost == b.cost && b.node < a.node)

/-- Put an entry into a queue in order. -/
def enqueue (e : Entry) : List Entry → List Entry
  | [] => [e]
  | f :: rest => if f.before e then f :: enqueue e rest else e :: f :: rest

theorem length_enqueue (e : Entry) (queue : List Entry) :
    (enqueue e queue).length = queue.length + 1 := by
  induction queue with
  | nil => rfl
  | cons f rest ih =>
    rw [enqueue]
    split <;> simp [ih]

/-- Distances, and the entries that wait. -/
structure Search where
  distances : Array Nat
  queue : List Entry

namespace Search

/-- Only the source is reached, and it waits. -/
def start (g : Graph) (source : Nat) : Search :=
  ⟨initialDistances g.numNodes source, [⟨0, source⟩]⟩

/-- Bring `target` to the distance `candidate` if that is closer. -/
def relax (s : Search) (target candidate : Nat) : Search :=
  match lowerAt? s.distances target candidate with
  | some distances => ⟨distances, enqueue ⟨candidate, target⟩ s.queue⟩
  | none => s

/-- Relax the edges out of the vertex of an entry, unless the vertex has come closer. -/
def handle (g : Graph) (s : Search) (e : Entry) : Search :=
  if s.distances.getD e.node 0 < e.cost then s
  else
    (g.arcs e.node).foldl (fun s a => s.relax a.target.toNat (through e.cost a.weight.toNat)) s

/-- Take out the first entry and handle it. -/
def next? (g : Graph) (s : Search) : Option (Entry × Search) :=
  match s.queue with
  | [] => none
  | e :: rest => some (e, handle g ⟨s.distances, rest⟩ e)

/-- What a search can still do at most. -/
def measure (s : Search) : Nat :=
  total s.distances.toList + s.queue.length

theorem measure_relax (s : Search) (target candidate : Nat) :
    (s.relax target candidate).measure ≤ s.measure := by
  unfold relax measure
  split
  next h =>
    have := total_lt_of_lowerAt? h
    simp only [length_enqueue]
    omega
  next => exact Nat.le_refl _

theorem measure_handle (g : Graph) (s : Search) (e : Entry) :
    (s.handle g e).measure ≤ s.measure := by
  unfold handle
  split
  next => exact Nat.le_refl _
  next h =>
    clear h
    generalize g.arcs e.node = arcs
    induction arcs generalizing s with
    | nil => exact Nat.le_refl _
    | cons a arcs ih => exact Nat.le_trans (ih _) (measure_relax ..)

theorem measure_next? {g : Graph} {s t : Search} {e : Entry} (h : s.next? g = some (e, t)) :
    t.measure < s.measure := by
  obtain ⟨distances, queue⟩ := s
  cases queue with
  | nil => cases h
  | cons f rest =>
    obtain ⟨rfl, rfl⟩ := Prod.mk.inj (Option.some.inj h)
    have := measure_handle g ⟨distances, rest⟩ f
    simp only [measure, List.length_cons] at this ⊢
    omega

/-- Handle entries until none waits. -/
def finish (g : Graph) (s : Search) : Search :=
  match _h : s.next? g with
  | none => s
  | some (_, t) => t.finish g
termination_by s.measure
decreasing_by exact measure_next? _h

/-- The entries taken out until none waits, each with the distances at that time. -/
def taken (g : Graph) (s : Search) : List (Entry × Array Nat) :=
  match _h : s.next? g with
  | none => []
  | some (e, t) => (e, s.distances) :: t.taken g
termination_by s.measure
decreasing_by exact measure_next? _h

end Search

/-- The distances from `source`. None is reached if the source is no vertex. -/
def dijkstra (g : Graph) (source : Nat) : Array Nat :=
  if source < g.numNodes then ((Search.start g source).finish g).distances
  else initialDistances g.numNodes source

end SparseGraph.ShortestPath
