import SparseGraph.Text.Words

namespace SparseGraph.Files

open Text (pieces)

/-!
# Paths

* `pathParts` — the parts of a path between its slashes;
* `place` — the names that lead to what a path means;
* `fileName?`, `extension?` — the name that a path ends in, and its extension.
-/

/-- The parts of a path between its slashes. -/
def pathParts (path : String) : List String :=
  (pieces (· == '/') path.toList).map String.ofList

/-- The names that lead to the directory above. The root, whose name is empty, is its own. Above the
    working directory the names are not known, and two dots stand for each. -/
def above (names : List String) : List String :=
  match names.getLast? with
  | none | some ".." => names ++ [".."]
  | some _ => if names = [""] then names else names.dropLast

/-- Go on by one part of a path. -/
def enter (names : List String) (part : String) : List String :=
  if part = "" ∨ part = "." then names
  else if part = ".." then above names
  else names ++ [part]

/-- Where a path begins, at the root or in the working directory, and the parts that follow. -/
def splitStart (path : String) : List String × List String :=
  match pathParts path with
  | "" :: parts => ([""], parts)
  | parts => ([], parts)

/-- The names that lead to what a path means. -/
def place (path : String) : List String :=
  (splitStart path).2.foldl enter (splitStart path).1

/-- The name that a path ends in; slashes and single dots at its end are passed over, and two dots
    are no name. -/
def fileName? (path : String) : Option String :=
  match (pathParts path).reverse.find? (fun part => part ≠ "" ∧ part ≠ ".") with
  | some ".." => none
  | name => name

/-- What follows the last dot of the name that a path ends in, unless the name begins with that
    dot. -/
def extension? (path : String) : Option String :=
  match (fileName? path).map fun name => (pieces (· == '.') name.toList).reverse with
  | some [_, []] => none
  | some (last :: _ :: _) => some (String.ofList last)
  | _ => none

example : extension? "a.b/c.txt/." = some "txt" := by decide

example : extension? "a/.txt" = none := by decide

example : place "a/../../../b" = ["..", "..", "b"] := by decide

end SparseGraph.Files
