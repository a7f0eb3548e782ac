namespace SparseGraph.Component

/-!
# Sizes of components

Vertices with one label form a component.

* `componentSizes` — the labels in order, each with the number of its vertices;
* `countComponents`, `largestComponent` — how many labels there are, and the greatest number of
  vertices with one label.
-/

/-- Add an item in front of runs of equal items. -/
def consRun (a : Nat) : List (Nat × Nat) → List (Nat × Nat)
  | [] => [(a, 1)]
  | (b, count) :: runs => if a = b then (b, count + 1) :: runs else (a, 1) :: (b, count) :: runs

/-- The labels in order, each with the number of vertices that have it. -/
def componentSizes (labels : List Nat) : List (Nat × Nat) :=
  (labels.mergeSort (· ≤ ·)).foldr consRun []

/-- The number of labels. -/
def countComponents (labels : List Nat) : Nat :=
  (componentSizes labels).length

/-- The greatest number of vertices with one label, 0 without vertices. -/
def largestComponent (labels : List Nat) : Nat :=
  ((componentSizes labels).map Prod.snd).foldl max 0

end SparseGraph.Component
