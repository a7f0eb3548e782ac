import SparseGraph.CommandLine.Conversion
import SparseGraph.CommandLine.Measuring

namespace SparseGraph.CommandLine

open Files (Store)

/-!
# The programs

* `Program` — the programs by name;
* `Program.paths` — the files that a run may access;
* `Program.plan` — a run of a program.
-/

/-- The programs. -/
inductive Program where
  | distances
  | components
  | ranks
  | conversion
deriving DecidableEq, Repr

namespace Program

/-- The name of a program. -/
def name : Program → String
  | distances => "sssp-bench"
  | components => "cc-bench"
  | ranks => "pr-bench"
  | conversion => "snap-to-adj"

/-- All programs. -/
def all : List Program :=
  [distances, components, ranks, conversion]

/-- The program with a name. -/
def ofName? (name : String) : Option Program :=
  all.find? (·.name == name)

/-- The arguments that a program takes. -/
def grammar : Program → Grammar
  | distances => measuringGrammar distanceOptions
  | components => measuringGrammar componentOptions
  | ranks => measuringGrammar rankOptions
  | conversion => conversionGrammar

/-- What a program prints if it does not run: its name and version on request. -/
def informationLines (p : Program) : UsageError → List String
  | .version => [s!"{p.name} 0.1.0"]
  | _ => []

/-- The paths of the files that a run may access, if the arguments are accepted. -/
def paths (p : Program) (args : List String) : List String :=
  match p.grammar.parse args with
  | .error _ => []
  | .ok given => ["INPUT", "OUTPUT", "record"].filterMap given.value?

/-- A run of a program. -/
def plan (p : Program) (store : Store) (args : List String) : Plan :=
  match p.grammar.parse args with
  | .error e => .finished ⟨p.informationLines e, .refused e, store⟩
  | .ok given =>
    match p with
    | distances => planDistances store given
    | components => planComponents store given
    | ranks => planRanks store given
    | conversion => .finished (convert store given)

end Program

end SparseGraph.CommandLine
