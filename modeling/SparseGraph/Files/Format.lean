import SparseGraph.Files.Path

namespace SparseGraph.Files

/-!
# File formats

* `Format.ofPath` — the format that a path suggests.
-/

/-- The formats of graph files. -/
inductive Format where
  | adjacency
  | edgeList
  | table
deriving DecidableEq, Repr

/-- The format that a path suggests by its extension. -/
def Format.ofPath (path : String) : Format :=
  match extension? path with
  | some "txt" => .edgeList
  | some "snap" => .edgeList
  | some "parquet" => .table
  | _ => .adjacency

end SparseGraph.Files
