import SparseGraph.CommandLine.BenchArgs
import SparseGraph.CommandLine.Plan
import SparseGraph.Component.LabelPropagation
import SparseGraph.Component.UnionFind
import SparseGraph.Files.GraphFile
import SparseGraph.Files.RecordFile
import SparseGraph.Graph.Symmetry
import SparseGraph.Rank.PageRank
import SparseGraph.Report.CounterReport
import SparseGraph.ShortestPath.DeltaStepping
import SparseGraph.ShortestPath.Dijkstra

namespace SparseGraph.CommandLine

open Files (Store loadGraph appendRecord)
open Json (Value)
open Report (Record Summary countValue)

/-!
# Measuring programs

Each of the three programs loads a graph, runs one algorithm on it, tells duration and result, and
adds a record of the run to a file if asked to.

* `planDistances` — shortest paths by delta stepping, checked against Dijkstra's algorithm;
* `planComponents` — components by label propagation, checked against disjoint sets;
* `planRanks` — ranks.
-/

/-- Load the input and tell its size. -/
def loadInput (store : Store) (args : BenchArgs) : Except Failure (Graph × String) := do
  let g ← (loadGraph store args.input args.graphFormat).mapError (Failure.within (.loading args.input))
  return (g, s!"Read {g.numNodes} nodes, {g.numEdges} edges")

/-- The lines before the measured work. -/
def startLines (args : BenchArgs) : List String :=
  [s!"INFO: Using {args.threads} threads", "", "=== MEASURED RUN ==="]

/-- The record of a run without counters. -/
def recordOf (benchmark : String) (args : BenchArgs) (g : Graph) (nanoseconds : Nat)
    (summary : Summary) (params : List (String × Value)) : Record where
  benchmark
  input := args.input
  params := .ofList params
  numNodes := g.numNodes
  numEdges := g.numEdges
  threads := args.threads
  elapsedSeconds := Report.secondsOf nanoseconds
  counters := .empty
  derived := .ofReadings .empty
  summary

/-- Tell duration and result, add the record, and check the result. The check yields a line, or
    nothing to tell. -/
def finish (store : Store) (args : BenchArgs) (output : List String) (record : Record)
    (check : Unit → Except Failure (List String)) : Outcome :=
  let output := output ++
    [s!"time: {Report.fixedDouble 6 record.elapsedSeconds} sec", record.summary.text]
  let saved : Except Failure Store :=
    match args.record with
    | none => .ok store
    | some path => appendRecord store path record
  match saved with
  | .error failure => ⟨output, .failed failure, store⟩
  | .ok store =>
    match check () with
    | .ok lines => ⟨output ++ lines, .success, store⟩
    | .error failure => ⟨output, .failed failure, store⟩

/-- The line that tells of a successful check. -/
def checkedLine : String :=
  "verification: OK"

/-! ### Distances -/

/-- The options for distances. -/
def distanceOptions : List Spec :=
  [{ name := "delta", kind := readable readWord? },
    { name := "source", short := some 's', kind := readable readWord? },
    { name := "verify", kind := .switch }]

/-- The width of buckets, as far as it can be counted in 64 bits. -/
def bucketWidth (shift : Nat) : Nat :=
  if shift < 64 then 1 <<< shift else Text.maxLong

/-- Compare distances with those of Dijkstra's algorithm. -/
def checkDistances (g : Graph) (source : Nat) (distances : Array Nat) :
    Except Failure (List String) :=
  let expected := ShortestPath.dijkstra g source
  let count := (expected.toList.zip distances.toList).countP fun (a, b) => a != b
  if count = 0 then .ok [checkedLine] else .error (.ofCause (.distancesDiffer count))

/-- Measure delta stepping. -/
def planDistances (store : Store) (given : Given) : Plan :=
  let args := BenchArgs.ofGiven given
  let shift := ((given.value? "delta").bind readWord?).getD ShortestPath.defaultShift
  let source := ((given.value? "source").bind readWord?).getD 0
  match loadInput store args with
  | .error failure => .fail store [] failure
  | .ok (g, sizeLine) =>
    if g.numNodes ≤ source then
      .fail store [sizeLine] (.ofGraphError (.vertexOutOfBounds source g.numNodes))
    else
      let output :=
        sizeLine :: s!"INFO: Using delta-step of {bucketWidth shift}" :: startLines args
      .measured (fun _ => ShortestPath.deltaStep g source shift) fun result nanoseconds =>
        match result with
        | .error e => ⟨output, .failed (.ofGraphError e), store⟩
        | .ok r =>
          let summary := Summary.distances (.ofDistances r.distances.toList)
          let record := recordOf "sssp" args g nanoseconds summary
            [("source", countValue source), ("shift", countValue shift),
              ("rounds", countValue r.tally.rounds),
              ("relaxations", countValue r.tally.relaxations)]
          finish store args output record fun _ =>
            if given.has "verify" then checkDistances g source r.distances else .ok []

/-! ### Components -/

/-- The options for components. -/
def componentOptions : List Spec :=
  [{ name := "directed", kind := .switch }, { name := "verify", kind := .switch }]

/-- Compare labels with the components found by disjoint sets. -/
def checkLabels (g : Graph) (labels : List Nat) : Except Failure (List String) :=
  if Component.weakComponents g = labels then .ok [checkedLine]
  else .error (.ofCause .labelsDiffer)

/-- Measure label propagation. The graph is made symmetric before, unless it is so already or its
    directions are to be kept; labels that follow directions are not checked. -/
def planComponents (store : Store) (given : Given) : Plan :=
  let args := BenchArgs.ofGiven given
  let directed := given.has "directed"
  match loadInput store args with
  | .error failure => .fail store [] failure
  | .ok (loaded, sizeLine) =>
    let symmetric := loaded.isSymmetric
    match if directed || symmetric then .ok loaded else loaded.symmetrized with
    | .error e => .fail store [sizeLine] (.ofGraphError e)
    | .ok g =>
      let output := sizeLine :: startLines args
      .measured (fun _ => Component.propagate g) fun r nanoseconds =>
        let labels := r.labels.toList
        let record := recordOf "cc" args g nanoseconds (.components (.ofLabels labels))
          [("directed", .bool directed), ("rounds", countValue r.rounds)]
        finish store args output record fun _ =>
          if given.has "verify" && !(directed && !symmetric) then checkLabels g labels else .ok []

/-! ### Ranks -/

/-- The options for ranks. -/
def rankOptions : List Spec :=
  [{ name := "rounds", kind := readable readWord? },
    { name := "epsilon", kind := readable readSingle? },
    { name := "damping", kind := readable readSingle? }]

/-- The configuration that is given. -/
def rankConfig (given : Given) : Rank.Config Float32 where
  damping := ((given.value? "damping").bind readSingle?).getD Rank.standard.damping
  epsilon := ((given.value? "epsilon").bind readSingle?).getD Rank.standard.epsilon
  maxRounds := ((given.value? "rounds").bind readWord?).getD Rank.standard.maxRounds

/-- A single as a parameter. -/
def singleValue (x : Float32) : Value :=
  .number (.double (Decimal.widen x))

/-- Measure the computation of ranks. -/
def planRanks (store : Store) (given : Given) : Plan :=
  let args := BenchArgs.ofGiven given
  let config := rankConfig given
  match loadInput store args with
  | .error failure => .fail store [] failure
  | .ok (g, sizeLine) =>
    let output := sizeLine :: startLines args
    .measured (fun _ => Rank.pageRank Rank.floating ⟨args.threads⟩ g config) fun r nanoseconds =>
      let record := recordOf "pr" args g nanoseconds (.ranks (.ofRanks r.ranks.toList))
        [("max_rounds", countValue config.maxRounds), ("epsilon", singleValue config.epsilon),
          ("damping", singleValue config.damping), ("rounds", countValue r.activity.length),
          ("active_per_round", .array (r.activity.map countValue))]
      finish store args output record fun _ => .ok []

end SparseGraph.CommandLine
