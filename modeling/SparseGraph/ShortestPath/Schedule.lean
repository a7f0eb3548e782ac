import SparseGraph.ShortestPath.DeltaStepping

namespace SparseGraph.ShortestPath

/-!
# Schedules of relaxation

Workers may take waiting items in any order, and relax the edges out of a vertex in any order. A
schedule is a run of single steps, each of which takes one waiting item, wherever it stands.

* `Situation` — distances and waiting items;
* `Step` — one item is taken;
* `Steps` — so many items are taken, one after another.
-/

/-- Distances, and the items that wait. -/
structure Situation where
  distances : Array Nat
  pending : List Item

namespace Situation

/-- Only the source is reached, and it waits. -/
def initial (g : Graph) (source : Nat) : Situation :=
  ⟨initialDistances g.numNodes source, [⟨source, 0⟩]⟩

/-- The waiting item `item` is taken: it is gone, and the edges out of its vertex, in the order
    `arcs`, are relaxed. -/
def relaxed (distances : Array Nat) (others : List Item) (item : Item) (arcs : List Arc) :
    Situation :=
  let s := Sweep.relaxArcs ⟨distances, #[], 0⟩ (distances.getD item.vertex 0) arcs
  ⟨s.distances, others ++ s.produced.toList⟩

end Situation

/-- One waiting item is taken. -/
inductive Step (g : Graph) : Situation → Situation → Prop
  /-- It is dropped if its vertex has come closer since it was filed. -/
  | drop {distances : Array Nat} {before after : List Item} {item : Item}
      (stale : distances.getD item.vertex 0 < item.distance) :
      Step g ⟨distances, before ++ item :: after⟩ ⟨distances, before ++ after⟩
  /-- Otherwise the edges out of its vertex are relaxed in some order. -/
  | relax {distances : Array Nat} {before after : List Item} {item : Item}
      (fresh : item.distance ≤ distances.getD item.vertex 0) {arcs : List Arc}
      (order : arcs.Perm (g.arcs item.vertex)) :
      Step g ⟨distances, before ++ item :: after⟩
        (.relaxed distances (before ++ after) item arcs)

/-- So many items are taken, one after another. -/
inductive Steps (g : Graph) : Nat → Situation → Situation → Prop
  | none {s : Situation} : Steps g 0 s s
  | more {count : Nat} {s t u : Situation} (steps : Steps g count s t) (step : Step g t u) :
      Steps g (count + 1) s u

end SparseGraph.ShortestPath
