import SparseGraph.Report.Record

namespace SparseGraph.Report

open Json (Node TextUnit Value Number decodeText?)

/-!
# Reading records

A record is read from an object, whose members may come in any order, or from an array of its
fields in order. Members that are not known are passed over, whatever they hold; a known member may
not come twice, and only ratios may be missing.

* `fields?` — the fields of a structure;
* `Summary.read?`, `Record.ofNode?` — summary and record of a tree;
* `Record.read?` — the record of a line.
-/

/-- The name of a member. A name that denotes no text is an error even if it is not known. -/
def memberNames? (members : List (List TextUnit × Node)) : Option (List (String × Node)) :=
  members.mapM fun (key, node) => (decodeText? key).map (·, node)

/-- The value of the field `name`, if it is there; an error if it comes twice. -/
def field? {α : Type} (members : List (String × α)) (name : String) : Option (Option α) :=
  match members.filter (·.1 == name) with
  | [] => some none
  | [(_, value)] => some (some value)
  | _ => none

/-- The fields `names` of an object or an array. -/
def fields? (names : List String) : Node → Option (List (Option Node))
  | .object members => do
    let members ← memberNames? members
    names.mapM (field? members)
  | .array items => if items.length = names.length then some (items.map some) else none
  | _ => none

/-! ### Fields -/

/-- A text. -/
def textOf? : Node → Option String
  | .text units => decodeText? units
  | _ => none

/-- A number. -/
def numberOf? : Node → Option Number
  | .number t => Number.ofText? t
  | _ => none

/-- An integer from 0 up to `bound`. -/
def countOf? (bound : Nat) : Number → Option Nat
  | .integer i => if 0 ≤ i ∧ i ≤ bound then some i.toNat else none
  | _ => none

/-- A count of 64 bits. -/
def longOf? (node : Node) : Option Nat :=
  (numberOf? node).bind (countOf? Text.maxLong)

/-- A ratio, or `null` for none. -/
def ratioOf? : Option Node → Option (Option Float)
  | none => some none
  | some .null => some none
  | some node => (numberOf? node).map fun n => some n.toDouble

/-- How many arrays and objects may stand in one another below the second level. -/
def levelsBelow : Nat := Json.maxLevels - 2

/-- Parameters: an object of any values. -/
def paramsOf? : Node → Option (NameMap Value)
  | .object members => do
    let members ← Json.membersOfNodes? levelsBelow members
    return NameMap.ofList members
  | _ => none

/-- Counts by name. -/
def readingsOf? : Node → Option Readings
  | .object members => do
    let members ← memberNames? members
    let counts ← members.mapM fun (name, node) => (longOf? node).map (name, ·)
    return NameMap.ofList counts
  | _ => none

/-- The names of the ratios in a record. -/
def ratioNames : List String :=
  ["ipc", "mlp", "memory_stall_pct", "memory_bound_pct"]

/-- Ratios. -/
def derivedOf? (node : Node) : Option Derived := do
  match ← (← fields? ratioNames node).mapM ratioOf? with
  | [ipc, mlp, memoryStall, memoryBound] => some ⟨ipc, mlp, memoryStall, memoryBound⟩
  | _ => none

/-! ### Summaries -/

/-- The number that a value holds. -/
def numberOfValue? : Value → Option Number
  | .number n => some n
  | _ => none

/-- The fields of a summary: found by name among the members of an object, or in order. -/
def summaryFields? (names : List String) : Sum (List (String × Value)) (List Value) →
    Option (List Number)
  | .inl members => names.mapM fun name => do (← field? members name).bind numberOfValue?
  | .inr items => if items.length = names.length then items.mapM numberOfValue? else none

/-- The summary of a kind from its fields. -/
def Summary.ofFields? (kind : String) (content : Sum (List (String × Value)) (List Value)) :
    Option Summary :=
  if kind = "sssp" then do
    match ← summaryFields? ["max_distance", "reachable", "num_nodes"] content with
    | [d, r, n] =>
      return .distances ⟨← countOf? Text.maxWord d, ← countOf? Text.maxLong r,
        ← countOf? Text.maxLong n⟩
    | _ => none
  else if kind = "cc" then do
    match ← summaryFields? ["components", "largest"] content with
    | [c, l] => return .components ⟨← countOf? Text.maxLong c, ← countOf? Text.maxLong l⟩
    | _ => none
  else if kind = "pr" then do
    match ← summaryFields? ["max_rank", "rank_sum"] content with
    | [m, s] => return .ranks ⟨m.toSingle, s.toDouble⟩
    | _ => none
  else none

/-- A summary: an object with its kind under `kernel`, or an array with its kind first. All its
    values are checked, also those that are not known. -/
def Summary.read? : Node → Option Summary
  | .object members => do
    let members ← Json.membersOfNodes? levelsBelow members
    match ← field? members "kernel" with
    | some (.text kind) => Summary.ofFields? kind (.inl (members.filter (·.1 != "kernel")))
    | _ => none
  | .array (kind :: items) => do
    let kind ← textOf? kind
    Summary.ofFields? kind (.inr (← Json.valuesOfNodes? levelsBelow items))
  | _ => none

/-! ### Records -/

/-- The names of the fields of a record. -/
def fieldNames : List String :=
  ["benchmark", "input", "params", "num_nodes", "num_edges", "threads", "elapsed_secs", "counters",
    "derived", "summary"]

/-- The record of a tree. -/
def Record.ofNode? (node : Node) : Option Record := do
  match ← (← fields? fieldNames node).mapM id with
  | [benchmark, input, params, numNodes, numEdges, threads, elapsed, counters, derived, summary] =>
    return {
      benchmark := ← textOf? benchmark
      input := ← textOf? input
      params := ← paramsOf? params
      numNodes := ← longOf? numNodes
      numEdges := ← longOf? numEdges
      threads := ← longOf? threads
      elapsedSeconds := (← numberOf? elapsed).toDouble
      counters := ← readingsOf? counters
      derived := ← derivedOf? derived
      summary := ← Summary.read? summary }
  | _ => none

/-- The record of a line. -/
def Record.read? (line : List Char) : Option Record :=
  (Node.read? line).bind Record.ofNode?

end SparseGraph.Report
