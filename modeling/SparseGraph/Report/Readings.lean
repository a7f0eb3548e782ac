import SparseGraph.NameMap

namespace SparseGraph.Report

/-!
# Event counters

* `EventSpec`, `defaultEvents` — the events that are counted;
* `Readings` — the counts, by the names of the events;
* `Derived` — ratios of counts.
-/

/-- The kinds of event codes. -/
inductive EventKind where
  | hardware
  | cache
  | raw
deriving DecidableEq, Repr

/-- The number of a kind. -/
def EventKind.typeId : EventKind → Nat
  | .hardware => 0
  | .cache => 3
  | .raw => 4

/-- An event to be counted. -/
structure EventSpec where
  name : String
  kind : EventKind
  config : Nat
deriving DecidableEq, Repr

/-- The name of the event that a clock cycle passes. -/
def cycles : String := "cycles"

/-- The name of the event that an instruction is finished. -/
def instructions : String := "instructions"

/-- The name of the event that a miss is pending, counted once for each miss and cycle. -/
def pendingMisses : String := "l1d_pend_miss.pending"

/-- The name of the event that any miss is pending in a cycle. -/
def pendingCycles : String := "l1d_pend_miss.pending_cycles"

/-- The name of the event that a cycle passes waiting for memory. -/
def memoryStalls : String := "cycle_activity.stalls_mem_any"

/-- The code of a raw event, counted in cycles in which it occurs at least `threshold` times. -/
def withThreshold (code threshold : Nat) : Nat :=
  code + threshold <<< 24

/-- The code of read misses in a cache. -/
def readMisses (cache : Nat) : Nat :=
  cache + 1 <<< 16

/-- The events that are counted in a measured run. -/
def defaultEvents : List EventSpec :=
  [⟨cycles, .hardware, 0⟩, ⟨instructions, .hardware, 1⟩,
    ⟨pendingMisses, .raw, 0x0148⟩, ⟨pendingCycles, .raw, withThreshold 0x0148 1⟩,
    ⟨"L1-dcache-load-misses", .cache, readMisses 0⟩, ⟨"LLC-load-misses", .cache, readMisses 2⟩,
    ⟨memoryStalls, .raw, withThreshold 0x14a3 0x14⟩, ⟨"mem_inst_retired.all_loads", .raw, 0x81d0⟩,
    ⟨"mem_load_retired.l3_miss", .raw, 0x20d1⟩, ⟨"longest_lat_cache.miss", .raw, 0x412e⟩]

/-- Counts by the names of the events. -/
abbrev Readings := NameMap Nat

/-- Ratios of counts. One is missing if a count is missing or would be divided by 0. -/
structure Derived where
  /-- Instructions per cycle. -/
  ipc : Option Float
  /-- Misses that are pending on average while any is. -/
  mlp : Option Float
  /-- The percentage of cycles with a pending miss. -/
  memoryStall : Option Float
  /-- The percentage of cycles that wait for memory. -/
  memoryBound : Option Float

/-- One count as a double. -/
def countAsDouble (n : Nat) : Float :=
  (UInt64.ofNat n).toFloat

/-- The quotient of two counts. -/
def ratio (readings : Readings) (numerator denominator : String) : Option Float := do
  let n ← readings.get? numerator
  let d ← readings.get? denominator
  if 0 < d then some (countAsDouble n / countAsDouble d) else none

/-- The ratios that the counts allow. -/
def Derived.ofReadings (readings : Readings) : Derived where
  ipc := ratio readings instructions cycles
  mlp := ratio readings pendingMisses pendingCycles
  memoryStall := (ratio readings pendingCycles cycles).map (· * 100)
  memoryBound := (ratio readings memoryStalls cycles).map (· * 100)

/-- Whether there is no ratio at all. -/
def Derived.isEmpty (d : Derived) : Bool :=
  d.ipc.isNone && d.mlp.isNone && d.memoryStall.isNone && d.memoryBound.isNone

end SparseGraph.Report
