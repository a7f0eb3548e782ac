import SparseGraph.Failure
import SparseGraph.Files.Path

namespace SparseGraph.Files

/-!
# Files

Programs read and write files. A file holds text, a table, or something else. Besides the
directories that are named there are those that the files are in.

* `Content`, `Store` — the files;
* `pathFault?` — what is wrong with a path, whatever the files;
* `Store.locate`, `Store.target` — what stands at a path, and where a file is to be written;
* `Store.read`, `Store.write`, `Store.append` — access to a file.
-/

/-- What a file holds. -/
inductive Content where
  | text (chars : String)
  | table (t : Graph.Table)
  /-- Neither text nor a table. Of a table with more behind it only what is behind it is kept. -/
  | other (bytes : List UInt8)

/-- The most bytes of a name. -/
def longestName : Nat := 255

/-- The most bytes of a path. -/
def longestPath : Nat := 4095

/-- What is wrong with a path, whatever the files. -/
def pathFault? (path : String) : Option FileFault :=
  if path.toList.contains '\x00' then some .holdsNul
  else if path.isEmpty then some .missing
  else if longestPath < path.utf8ByteSize then some .nameTooLong
  else none

/-- The names that lead to the file that is always empty: what is written to it is lost. -/
def nullFile : List String := ["", "dev", "null"]

/-- Files and directories, each with the names that lead to it. -/
structure Store where
  files : List (List String × Content)
  directories : List (List String) := []

namespace Store

/-- No file at all. -/
def empty : Store :=
  { files := [] }

/-- What stands at a path. -/
inductive Place where
  | directory (names : List String)
  | file (names : List String) (content : Content)
  /-- Nothing, in a directory that is there. -/
  | free (names : List String)

/-- What these names lead to. -/
def lookup (s : Store) (names : List String) : Place :=
  if names = nullFile then .file names (.text "")
  else
    match s.files.find? (·.1 == names) with
    | some (_, content) => .file names content
    | none =>
      if names.all (fun name => name == "" || name == "..") || s.directories.contains names ||
          (nullFile :: s.files.map (·.1)).any names.isPrefixOf then .directory names
      else .free names

/-- Follow the parts of a path from a place on. -/
def follow (s : Store) : Place → List String → Except FileFault Place
  | place, [] => .ok place
  | .directory names, part :: parts =>
    if longestName < part.utf8ByteSize then .error .nameTooLong
    else s.follow (s.lookup (enter names part)) parts
  | .file .., _ :: _ => .error .notDirectory
  | .free _, _ :: _ => .error .missing

/-- What stands at a path. -/
def locate (s : Store) (path : String) : Except FileFault Place :=
  match pathFault? path with
  | some fault => .error fault
  | none => s.follow (.directory (splitStart path).1) (splitStart path).2

/-- The names under which a file in a place is to be written. -/
def Place.target : Place → Except FileFault (List String)
  | .directory _ => .error .isDirectory
  | .file names _ | .free names => .ok names

/-- Why no file can be written at the path of a directory that is in a place. -/
def Place.directoryFault : Place → FileFault
  | .directory _ => .isDirectory
  | .file .. => .notDirectory
  | .free _ => .missing

/-- The names under which a file at a path is to be written. A path that ends in a slash is one of
    a directory, whether there is one or not; what it is in is judged first. -/
def target (s : Store) (path : String) : Except FileFault (List String) :=
  match pathFault? path with
  | some fault => .error fault
  | none =>
    let (start, parts) := splitStart path
    match parts.reverse with
    | "" :: parts =>
      (s.follow (.directory start) ((parts.dropWhile (· == "")).drop 1).reverse).bind
        fun place => .error place.directoryFault
    | _ => (s.follow (.directory start) parts).bind Place.target

/-- The contents of the file at a path. -/
def read (s : Store) (path : String) : Except FileFault Content :=
  match s.locate path with
  | .error fault => .error fault
  | .ok (.file _ content) => .ok content
  | .ok (.directory _) => .error .isDirectory
  | .ok (.free _) => .error .missing

/-- The contents under these names. -/
def get? (s : Store) (names : List String) : Option Content :=
  s.files.lookup names

/-- Put contents under these names. -/
def put (s : Store) (names : List String) (content : Content) : Store :=
  if names = nullFile then s
  else { s with files := (names, content) :: s.files.filter (·.1 != names) }

/-- Put contents into the file at a path, in place of what it holds. -/
def write (s : Store) (path : String) (content : Content) : Except FileFault Store :=
  (s.target path).map (s.put · content)

/-- Contents with more text behind them. -/
def extended (more : String) : Content → Content
  | .text chars => .text (chars ++ more)
  | .table _ => .other more.toUTF8.data.toList
  | .other bytes => .other (bytes ++ more.toUTF8.data.toList)

/-- Put more text behind what the file at a path holds; a file that is not there is made. -/
def append (s : Store) (path : String) (more : String) : Except FileFault Store :=
  (s.target path).map fun names =>
    s.put names (((s.get? names).map (extended more)).getD (.text more))

end Store

end SparseGraph.Files
