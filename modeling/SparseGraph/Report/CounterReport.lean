import SparseGraph.Decimal.Fixed
import SparseGraph.Report.Readings

namespace SparseGraph.Report

/-!
# The report of event counters

* `counterReport` — counts and ratios of a measured run as lines of text.
-/

/-- A double with a fixed number of places. -/
def fixedDouble (places : Nat) (x : Float) : String :=
  String.ofList ((Decimal.Binary.ofDouble x).fixed places)

/-- The line of a ratio, if there is one. -/
def ratioLine (label : String) (places : Nat) (unit : String) : Option Float → List String
  | none => []
  | some x => [s!"[PERF] {label}: {fixedDouble places x}{unit}"]

/-- The lines of a report. -/
def reportLines (readings : Readings) : List String :=
  let d := Derived.ofReadings readings
  ["", "[PERF] === RESULTS (Algorithm Only) ==="] ++
    readings.entries.map (fun (name, value) => s!"[PERF] {name}: {value}") ++
    ["", "[PERF] === DERIVED METRICS ==="] ++
    ratioLine "IPC" 3 "" d.ipc ++ ratioLine "MLP" 3 "" d.mlp ++
    ratioLine "Memory Stall % (pending_cycles/cycles)" 1 "%" d.memoryStall ++
    ratioLine "Memory Bound % (stalls_mem_any/cycles)" 1 "%" d.memoryBound ++
    ["[PERF] ========================"]

/-- Counts and ratios of a measured run, each line ended. -/
def counterReport (readings : Readings) : String :=
  String.join ((reportLines readings).map (· ++ "\n"))

end SparseGraph.Report
