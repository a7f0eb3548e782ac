import SparseGraph.Files.Store
import SparseGraph.Report.Record

namespace SparseGraph.Files

/-!
# Record files

A record file is a log: each run adds a line at its end.

* `appendRecord` — add the line of a record.
-/

/-- Add the line of a record to the file at a path. -/
def appendRecord (s : Store) (path : String) (r : Report.Record) : Except Failure Store :=
  (s.append path (String.ofList r.line)).mapError fun fault =>
    ⟨[.openingRecords path], .file fault⟩

end SparseGraph.Files
