import SparseGraph.CommandLine.Arguments
import SparseGraph.Decimal.Reader
import SparseGraph.Files.Format
import SparseGraph.Text.Numeral

namespace SparseGraph.CommandLine

open Files (Format)
open Text (readNumeral maxLong maxWord)

/-!
# Arguments of measuring programs

* `benchGrammar` — the arguments that all measuring programs take;
* `BenchArgs`, `BenchArgs.parse` — these arguments.
-/

/-! ### Values -/

/-- A value that can be read by `read`. -/
def readable {α : Type} (read : String → Option α) : Kind :=
  .value fun v => if (read v).isSome then none else some .malformed

/-- A path: any text but the empty one. -/
def path : Kind :=
  .value fun v => if v.isEmpty then some .invalid else none

/-- A count of 64 bits. -/
def readCount? (v : String) : Option Nat :=
  (readNumeral maxLong v.toList).toOption

/-- A number of 32 bits. It is read with a sign, so `-0` is allowed. -/
def readWord? (v : String) : Option Nat :=
  match v.toList with
  | '-' :: d :: ds => if (d :: ds).all (· == '0') then some 0 else none
  | cs => (readNumeral maxWord cs).toOption

/-- A single. -/
def readSingle? (v : String) : Option Float32 :=
  Decimal.readSingle? v.toList

/-- The formats by their names. -/
def readFormat? (v : String) : Option Format :=
  if v = "adj" then some .adjacency
  else if v = "snap" then some .edgeList
  else if v = "parquet" then some .table
  else none

/-- The name of a format. -/
def format : Kind :=
  .value fun v => if (readFormat? v).isSome then none else some .invalid

/-! ### Options -/

/-- The switches for the amount of messages. -/
def messageOptions : List Spec :=
  [{ name := "verbose", short := some 'v', kind := .switch },
    { name := "quiet", short := some 'q', kind := .switch }]

/-- The options that all programs have: to tell their arguments and their version. -/
def informationOptions : List Spec :=
  [{ name := "help", short := some 'h', kind := .help },
    { name := "version", short := some 'V', kind := .version }]

/-- The options that all measuring programs have. -/
def benchOptions : List Spec :=
  [{ name := "threads", short := some 't', kind := readable readCount? },
    { name := "format", kind := format }, { name := "record", kind := path },
    { name := "no-perf", kind := .switch }] ++ messageOptions

/-- The operands of measuring programs. -/
def benchOperands : List Spec :=
  [{ name := "INPUT", kind := path }]

/-- The arguments that all measuring programs take, without a version. -/
def benchGrammar : Grammar :=
  ⟨benchOptions ++ [{ name := "help", short := some 'h', kind := .help }], benchOperands⟩

/-- The arguments of a measuring program with further options of its own. -/
def measuringGrammar (options : List Spec) : Grammar :=
  ⟨benchOptions ++ options ++ informationOptions, benchOperands⟩

/-- The arguments that all measuring programs take. -/
structure BenchArgs where
  input : String
  threads : Nat
  format : Option Format
  record : Option String
  noCounters : Bool
  verbose : Bool
  quiet : Bool
deriving DecidableEq, Repr

/-- The arguments from those given. -/
def BenchArgs.ofGiven (given : Given) : BenchArgs where
  input := (given.value? "INPUT").getD ""
  threads := ((given.value? "threads").bind readCount?).getD 1
  format := (given.value? "format").bind readFormat?
  record := given.value? "record"
  noCounters := given.has "no-perf"
  verbose := given.has "verbose"
  quiet := given.has "quiet"

/-- The arguments from a command line. -/
def BenchArgs.parse (args : List String) : Except UsageError BenchArgs :=
  (benchGrammar.parse args).map BenchArgs.ofGiven

/-- The format of the input: the one that is given, or else the one that the path suggests. -/
def BenchArgs.graphFormat (a : BenchArgs) : Format :=
  a.format.getD (.ofPath a.input)

end SparseGraph.CommandLine
