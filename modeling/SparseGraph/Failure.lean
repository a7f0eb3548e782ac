import SparseGraph.Graph.Table
import SparseGraph.TableFile.Fault

open SparseGraph.Graph (Declaration TableError)

namespace SparseGraph

/-!
# Failures

What went wrong in a program, and what it was about when it did.

* `FileFault` — what is wrong with a file;
* `Cause`, `Context` — what went wrong, and what it was about;
* `Failure` — a cause in its contexts;
* `Failure.message`, `Failure.report` — a failure in one line, and as a report.
-/

/-- What is wrong with a file. -/
inductive FileFault where
  /-- The path holds a NUL. -/
  | holdsNul
  | nameTooLong
  | missing
  | isDirectory
  | notDirectory
  /-- The contents are not UTF-8. -/
  | notText
deriving DecidableEq, Repr

/-- The wording of a fault of a file. -/
def FileFault.message : FileFault → String
  | .holdsNul => "file name contained an unexpected NUL byte"
  | .nameTooLong => "File name too long (os error 36)"
  | .missing => "No such file or directory (os error 2)"
  | .isDirectory => "Is a directory (os error 21)"
  | .notDirectory => "Not a directory (os error 20)"
  | .notText => "stream did not contain valid UTF-8"

/-- What went wrong. -/
inductive Cause where
  | graph (error : GraphError)
  | numeral (fault : Text.NumeralFault)
  | file (fault : FileFault)
  | table (fault : TableFile.Fault)
  /-- So many distances differ from those found in another way. -/
  | distancesDiffer (count : Nat)
  /-- The labels differ from those found in another way. -/
  | labelsDiffer
deriving DecidableEq, Repr

/-- The wording of a cause. -/
def Cause.message : Cause → String
  | .graph error => error.message
  | .numeral fault => fault.message
  | .file fault => fault.message
  | .table fault => fault.message
  | .distancesDiffer count => s!"verification failed: {count} distances differ from Dijkstra"
  | .labelsDiffer => "verification failed: labels differ from union-find"

/-- What a failure was about. -/
inductive Context where
  | readingAdjacency (path : String)
  | parsingAdjacency (path : String)
  | writingAdjacency (path : String)
  | readingEdgeList (path : String)
  | parsingEdgeList (path : String)
  | openingTable (path : String)
  | creatingTable (path : String)
  /-- Access to the contents of a table file. -/
  | tableAccess (fault : FileFault)
  | declaration (which : Declaration) (value : String)
  | loading (path : String)
  | reading (path : String)
  | openingRecords (path : String)
deriving DecidableEq, Repr

/-- The wording of a context. -/
def Context.message : Context → String
  | .readingAdjacency path => s!"reading adjacency graph {path}"
  | .parsingAdjacency path => s!"parsing adjacency graph {path}"
  | .writingAdjacency path => s!"writing adjacency graph {path}"
  | .readingEdgeList path => s!"reading SNAP edge list {path}"
  | .parsingEdgeList path => s!"parsing SNAP edge list {path}"
  | .openingTable path => s!"Failed to open {path}"
  | .creatingTable path => s!"Failed to create {path}"
  | .tableAccess fault => s!"External: {fault.message}"
  | .declaration which value => s!"Invalid {which.key} metadata {Text.quoted value.toList}"
  | .loading path => s!"Failed to load graph: {path}"
  | .reading path => s!"Failed to read {path}"
  | .openingRecords path => s!"Failed to open record file: {path}"

/-- A cause in its contexts, the outermost first. -/
structure Failure where
  contexts : List Context
  cause : Cause
deriving DecidableEq, Repr

namespace Failure

/-- A cause without context. -/
def ofCause (cause : Cause) : Failure :=
  ⟨[], cause⟩

/-- The failure of a graph. -/
def ofGraphError (error : GraphError) : Failure :=
  ofCause (.graph error)

/-- The failure of a table. -/
def ofTableError : TableError → Failure
  | .graph error => ofGraphError error
  | .declaration which value fault => ⟨[.declaration which value], .numeral fault⟩

/-- The failure in one more context. -/
def within (context : Context) (f : Failure) : Failure :=
  { f with contexts := context :: f.contexts }

/-- Whether a program breaks off at the failure. -/
def isAbrupt (f : Failure) : Bool :=
  match f.cause with
  | .table fault => fault.isAbrupt
  | _ => false

/-- The wordings of the contexts and the cause, from the outside. -/
def chain (f : Failure) : List String :=
  f.contexts.map Context.message ++ [f.cause.message]

/-- The failure in one line. -/
def message (f : Failure) : String :=
  ": ".intercalate f.chain

/-- A text behind a margin, its further lines behind as many blanks as given. -/
def indented (margin : String) (blanks : Nat) (text : String) : String :=
  let lineBreak := String.ofList ('\n' :: List.replicate blanks ' ')
  margin ++ lineBreak.intercalate ((Text.lines text.toList).map String.ofList)

/-- The part of a report on the causes behind the outermost. Several are numbered. -/
def causeLines : List String → List String
  | [] => []
  | [cause] => ["", "Caused by:", indented "    " 4 cause]
  | causes =>
    "" :: "Caused by:" ::
      causes.mapIdx fun i cause =>
        let number := String.ofList (Text.digits i)
        let margin := String.ofList (List.replicate (5 - number.length) ' ') ++ number ++ ": "
        indented margin 7 cause

/-- The failure as a report that ends a program. -/
def report (f : Failure) : String :=
  match f.chain with
  | [] => ""
  | outermost :: causes => "\n".intercalate (("Error: " ++ outermost) :: causeLines causes) ++ "\n"

end Failure

end SparseGraph
