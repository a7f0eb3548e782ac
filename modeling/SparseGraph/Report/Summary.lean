import SparseGraph.Component.Sizes
import SparseGraph.Decimal.Fixed
import SparseGraph.Json.Value
import SparseGraph.ShortestPath.Distance

namespace SparseGraph.Report

open Json (Value Number)

/-!
# Summaries of results

* `DistanceSummary`, `ComponentSummary`, `RankSummary` — what is told about a result;
* `Summary` — one of them, with its text and its form in a record.
-/

/-- What is told about distances. -/
structure DistanceSummary where
  /-- The greatest distance of a vertex that is reached. -/
  maxDistance : Nat
  reachable : Nat
  numNodes : Nat
deriving DecidableEq, Repr

/-- What is told about components. -/
structure ComponentSummary where
  components : Nat
  largest : Nat
deriving DecidableEq, Repr

/-- What is told about ranks. -/
structure RankSummary where
  maxRank : Float32
  rankSum : Float

/-- The summary of distances. -/
def DistanceSummary.ofDistances (distances : List Nat) : DistanceSummary :=
  let finite := distances.filter (· ≠ ShortestPath.infinity)
  ⟨finite.foldl max 0, finite.length, distances.length⟩

/-- The summary of component labels. -/
def ComponentSummary.ofLabels (labels : List Nat) : ComponentSummary :=
  ⟨Component.countComponents labels, Component.largestComponent labels⟩

/-- The greater of two ranks, the second of two equal ones: zeros of either sign are equal, and the
    sign shows. A second rank that is no number is passed over. -/
def greaterRank (x y : Float32) : Float32 :=
  if x ≤ y then y else x

/-- The summary of ranks. The sum is taken from the left in doubles and begins with `-0`, which is
    neutral. -/
def RankSummary.ofRanks (ranks : List Float32) : RankSummary where
  maxRank := ranks.foldl greaterRank 0
  rankSum := ranks.foldl (fun sum r => sum + Decimal.widen r) (-0.0)

/-- What is told about a result. -/
inductive Summary where
  | distances (s : DistanceSummary)
  | components (s : ComponentSummary)
  | ranks (s : RankSummary)

/-- The summary as two lines of text. -/
def Summary.text : Summary → String
  | .distances s =>
    s!"max distance: {s.maxDistance}\nreachable vertices: {s.reachable} / {s.numNodes}"
  | .components s => s!"component num: {s.components}\nlargest component: {s.largest}"
  | .ranks s =>
    "max pr: " ++ String.ofList ((Decimal.Binary.ofSingle s.maxRank).fixed 8) ++
      "\nrank sum: " ++ String.ofList ((Decimal.Binary.ofDouble s.rankSum).fixed 6)

/-- A count in a record. -/
def countValue (n : Nat) : Value :=
  .number (.integer n)

/-- The summary in a record. Its first member tells its kind. -/
def Summary.toJson : Summary → Value
  | .distances s => .object [("kernel", .text "sssp"), ("max_distance", countValue s.maxDistance),
      ("reachable", countValue s.reachable), ("num_nodes", countValue s.numNodes)]
  | .components s => .object [("kernel", .text "cc"), ("components", countValue s.components),
      ("largest", countValue s.largest)]
  | .ranks s => .object [("kernel", .text "pr"), ("max_rank", .number (.single s.maxRank)),
      ("rank_sum", .number (.double s.rankSum))]

end SparseGraph.Report
