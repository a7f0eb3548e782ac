namespace SparseGraph.CommandLine

/-!
# Arguments of programs

Arguments are options, which begin with a hyphen, and operands. A value follows its option as the
next argument, behind `=`, or right behind a short option. Short switches may be joined. After `--`
there are only operands.

The value of an argument is checked when the next argument begins, so the first fault in the order
of the arguments is reported; only an argument that is not known at all, or a switch with a value,
is reported before what stands in front of it.

* `Spec`, `Grammar` — the arguments that a program takes;
* `UsageError` — why arguments are refused;
* `Grammar.parse` — the arguments given.
-/

/-- Why arguments are refused, or a request for information in place of a run. -/
inductive UsageError where
  /-- An operand is missing. -/
  | missing
  /-- There is no such argument. -/
  | unknown
  /-- A value cannot be read. -/
  | malformed
  /-- A value is missing, empty, or none of those allowed. -/
  | invalid
  /-- An option is given twice. -/
  | repeated
  /-- A switch is given a value. -/
  | unneeded
  | help
  | version
deriving DecidableEq, Repr

/-- What an argument does. -/
inductive Kind where
  /-- It has a value, which is refused as told. -/
  | value (refused : String → Option UsageError)
  | switch
  | help
  | version

/-- An argument that a program takes. -/
structure Spec where
  name : String
  short : Option Char := none
  kind : Kind

/-- Whether the argument has a value. -/
def Spec.hasValue (s : Spec) : Bool :=
  match s.kind with
  | .value _ => true
  | _ => false

/-- The arguments that a program takes: options in any order, and operands, all of them needed. -/
structure Grammar where
  options : List Spec
  operands : List Spec

/-- The arguments given, each with its value. -/
abbrev Given := List (String × String)

/-- How far arguments have been read. -/
structure Scan where
  given : Given
  /-- The last argument with a value, which is still to be checked, and the value if it has come. -/
  pending : Option (Spec × Option String)
  /-- Whether the next argument may be the value of the last one. -/
  awaiting : Bool
  operandsOnly : Bool
  /-- The operands that are still to come. -/
  operands : List Spec

namespace Scan

/-- Accept an argument with its value. -/
def accept (s : Scan) (spec : Spec) (value : Option String) : Except UsageError Scan :=
  let add (v : String) : Except UsageError Scan :=
    .ok { s with given := s.given ++ [(spec.name, v)], awaiting := false }
  let repeated := s.given.any (·.1 == spec.name)
  match spec.kind, value with
  | .value _, none => .error .invalid
  | .value refused, some v =>
    if repeated then .error .repeated
    else
      match refused v with
      | some e => .error e
      | none => add v
  | .switch, _ => if repeated then .error .repeated else add ""
  | .help, _ => .error .help
  | .version, _ => .error .version

/-- Check the argument that is still to be checked. -/
def resolve (s : Scan) : Except UsageError Scan :=
  match s.pending with
  | none => .ok s
  | some (spec, value) => { s with pending := none }.accept spec value

/-- Check what is pending, and then accept an argument. -/
def take (s : Scan) (spec : Spec) (value : Option String) : Except UsageError Scan := do
  (← s.resolve).accept spec value

/-- Begin an option whose value is to come. -/
def await (s : Scan) (spec : Spec) : Except UsageError Scan := do
  let s ← s.resolve
  return { s with pending := some (spec, none), awaiting := true }

/-- Take an operand. -/
def takeOperand (s : Scan) (arg : String) : Except UsageError Scan :=
  match s.operands with
  | [] => .error .unknown
  | spec :: rest => do
    let s ← s.resolve
    return { s with pending := some (spec, some arg), awaiting := false, operands := rest }

/-- Take an option by its long name, perhaps with a value behind `=`. -/
def takeLong (g : Grammar) (s : Scan) (name : List Char) (value : Option (List Char)) :
    Except UsageError Scan :=
  match g.options.find? (·.name.toList == name) with
  | none => .error .unknown
  | some spec =>
    match spec.hasValue, value with
    | true, some v => s.take spec (some (String.ofList v))
    | true, none => s.await spec
    | false, some _ => .error .unneeded
    | false, none => s.take spec none

/-- Take short options that are written together; an option with a value is the last of them. -/
def takeShort (g : Grammar) (s : Scan) : List Char → Except UsageError Scan
  | [] => .ok s
  | c :: rest =>
    match g.options.find? (·.short == some c) with
    | none => .error .unknown
    | some spec =>
      if spec.hasValue then
        match rest with
        | [] => s.await spec
        | '=' :: v => s.take spec (some (String.ofList v))
        | v => s.take spec (some (String.ofList v))
      else do takeShort g (← s.take spec none) rest

/-- Take an argument that is no option: the value that is awaited, or an operand. -/
def takePlain (s : Scan) (arg : String) : Except UsageError Scan :=
  -- The option is still pending: it is checked when the next argument begins.
  match s.awaiting, s.pending with
  | true, some (spec, _) => .ok { s with pending := some (spec, some arg), awaiting := false }
  | _, _ => s.takeOperand arg

/-- Read one argument. -/
def step (g : Grammar) (s : Scan) (arg : String) : Except UsageError Scan :=
  if s.operandsOnly then s.takeOperand arg
  else
    match arg.toList with
    | ['-', '-'] => .ok { s with operandsOnly := true }
    | '-' :: '-' :: rest =>
      match rest.dropWhile (· != '=') with
      | _ :: v => takeLong g s (rest.takeWhile (· != '=')) (some v)
      | [] => takeLong g s rest none
    -- A hyphen alone is a name like any other.
    | ['-'] => s.takePlain arg
    | '-' :: rest => takeShort g s rest
    | _ => s.takePlain arg

end Scan

/-- The arguments given, or the first fault in them. -/
def Grammar.parse (g : Grammar) (args : List String) : Except UsageError Given := do
  let s ← args.foldlM (Scan.step g) ⟨[], none, false, false, g.operands⟩
  let s ← s.resolve
  if s.operands.isEmpty then return s.given else throw .missing

/-- The value given for an argument. -/
def Given.value? (given : Given) (name : String) : Option String :=
  given.lookup name

/-- Whether a switch is given. -/
def Given.has (given : Given) (name : String) : Bool :=
  (given.lookup name).isSome

end SparseGraph.CommandLine
