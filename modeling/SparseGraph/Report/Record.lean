import SparseGraph.Report.Readings
import SparseGraph.Report.Summary

namespace SparseGraph.Report

open Json (Value)

/-!
# Records of runs

* `Record` — what is kept of a run;
* `Record.toJson`, `Record.line` — its form in a log, one line for each run.
-/

/-- What is kept of a run. -/
structure Record where
  benchmark : String
  input : String
  params : NameMap Value
  numNodes : Nat
  numEdges : Nat
  threads : Nat
  elapsedSeconds : Float
  counters : Readings
  derived : Derived
  summary : Summary

/-- The record with one more parameter. -/
def Record.withParam (r : Record) (name : String) (value : Value) : Record :=
  { r with params := r.params.insert name value }

/-- A duration of whole nanoseconds in seconds. -/
def secondsOf (nanoseconds : Nat) : Float :=
  countAsDouble (nanoseconds / 1000000000) + countAsDouble (nanoseconds % 1000000000) / 1e9

/-- A ratio in a record. -/
def ratioValue : Option Float → Value
  | none => .null
  | some x => .number (.double x)

/-- The ratios in a record. -/
def Derived.toJson (d : Derived) : Value :=
  .object [("ipc", ratioValue d.ipc), ("mlp", ratioValue d.mlp),
    ("memory_stall_pct", ratioValue d.memoryStall), ("memory_bound_pct", ratioValue d.memoryBound)]

/-- The record as JSON. -/
def Record.toJson (r : Record) : Value :=
  .object [("benchmark", .text r.benchmark), ("input", .text r.input),
    ("params", .object r.params.entries), ("num_nodes", countValue r.numNodes),
    ("num_edges", countValue r.numEdges), ("threads", countValue r.threads),
    ("elapsed_secs", .number (.double r.elapsedSeconds)),
    ("counters", .object (r.counters.entries.map fun (name, n) => (name, countValue n))),
    ("derived", r.derived.toJson), ("summary", r.summary.toJson)]

/-- The record as a line of a log. -/
def Record.line (r : Record) : List Char :=
  r.toJson.render ++ ['\n']

end SparseGraph.Report
