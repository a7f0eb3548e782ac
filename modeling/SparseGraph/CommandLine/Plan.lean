import SparseGraph.CommandLine.Arguments
import SparseGraph.Files.Store

namespace SparseGraph.CommandLine

open Files (Store)

/-!
# Runs of programs

A program reads its arguments and files, does its work, of which the duration is measured, and then
tells the result. What it does depends on nothing but arguments, files and duration.

* `Status`, `Outcome` — how a run ended;
* `Plan` — a run up to the measured work, the work, and the rest of the run;
* `Plan.outcome` — the whole run.
-/

/-- How a run ended. -/
inductive Status where
  | success
  | failed (failure : Failure)
  | refused (error : UsageError)

/-- What a run has printed, how it ended, and the files after it. -/
structure Outcome where
  output : List String
  status : Status
  store : Store

/-- The number that a run ends with. Information on request is no fault. -/
def Status.exitCode : Status → Nat
  | .success => 0
  | .failed failure => if failure.isAbrupt then 101 else 1
  | .refused .help => 0
  | .refused .version => 0
  | .refused _ => 2

/-- The lines printed. -/
def Outcome.text (o : Outcome) : String :=
  String.join (o.output.map (· ++ "\n"))

/-- A run that is over, or one whose work is still to be done. -/
inductive Plan where
  | finished (outcome : Outcome)
  /-- Do the work, and go on with its result and its duration in nanoseconds. -/
  | measured {Result : Type} (work : Unit → Result) (conclude : Result → Nat → Outcome)

/-- The whole run, if the work takes so many nanoseconds. -/
def Plan.outcome (nanoseconds : Nat) : Plan → Outcome
  | finished outcome => outcome
  | measured work conclude => conclude (work ()) nanoseconds

/-- A run that ends with a failure after these lines. -/
def Plan.fail (store : Store) (output : List String) (failure : Failure) : Plan :=
  .finished ⟨output, .failed failure, store⟩

end SparseGraph.CommandLine
