import SparseGraph.Text.Numeral

namespace SparseGraph.ShortestPath

/-!
# Distances

Distances are counted in 32 bits. The largest number stands for a vertex that cannot be reached,
and sums stop at it.

* `infinity` — the distance of a vertex that cannot be reached;
* `through` — the distance through an edge;
* `initialDistances` — the distances at the start of a search;
* `bucketOf` — the bucket of a distance, for buckets of width `2 ^ shift`.
-/

/-- The distance of a vertex that cannot be reached. -/
def infinity : Nat :=
  Text.maxWord

/-- The distance through an edge of weight `weight` from a vertex at `distance`. -/
def through (distance weight : Nat) : Nat :=
  min infinity (distance + weight)

/-- The distances of `n` vertices of which only `source` is reached. None is, if `source` is no
    vertex. -/
def initialDistances (n source : Nat) : Array Nat :=
  (Array.replicate n infinity).setIfInBounds source 0

/-- The bucket of a distance. Buckets are `2 ^ shift` wide; from `2 ^ 32` on there is only one. -/
def bucketOf (shift distance : Nat) : Nat :=
  if shift < 32 then distance >>> shift else 0

/-- The default width of buckets is `2 ^ 13`. -/
def defaultShift : Nat := 13

end SparseGraph.ShortestPath
