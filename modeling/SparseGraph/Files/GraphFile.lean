import SparseGraph.Files.Format
import SparseGraph.Files.Store
import SparseGraph.Graph.AdjacencyText
import SparseGraph.Graph.EdgeListText
import SparseGraph.TableFile.Contents

namespace SparseGraph.Files

/-!
# Graph files

* `loadGraph` — the graph in a file of a given format;
* `saveGraph` — a graph into a file: as a table if that is the format, else as adjacency text.
-/

/-- The text in a file. -/
def readText (s : Store) (path : String) : Except FileFault String :=
  match s.read path with
  | .ok (.text chars) => .ok chars
  | .ok _ => .error .notText
  | .error fault => .error fault

/-- The graph in a file of text: `reading` and `parsing` tell what a failure was about. -/
def loadText (s : Store) (path : String) (reading parsing : Context)
    (parse : List Char → Except GraphError Graph) : Except Failure Graph :=
  match readText s path with
  | .error fault => .error ⟨[reading], .file fault⟩
  | .ok chars => (parse chars.toList).mapError fun e => ⟨[parsing], .graph e⟩

/-- The graph in a file of adjacency text. -/
def loadAdjacency (s : Store) (path : String) : Except Failure Graph :=
  loadText s path (.readingAdjacency path) (.parsingAdjacency path) Graph.ofAdjacencyText

/-- The graph in a file of edges. -/
def loadEdgeList (s : Store) (path : String) : Except Failure Graph :=
  loadText s path (.readingEdgeList path) (.parsingEdgeList path) Graph.ofEdgeListText

/-- The graph of a table. If reading stopped before its end, this is the fault behind those in what
    is declared and in the rows that were read. -/
def graphOfContents (c : TableFile.Contents) : Except Failure Graph :=
  match c.fault? with
  | none => (Graph.ofTable c.table).mapError .ofTableError
  | some fault => do
    let _ ← (c.table.declared .numNodes).mapError Failure.ofTableError
    let _ ← (c.table.declared .numEdges).mapError Failure.ofTableError
    let _ ← c.table.edges.mapError Failure.ofGraphError
    .error (.ofCause (.table fault))

/-- The graph in the bytes of a table file. -/
def graphOfBytes (bytes : List UInt8) : Except Failure Graph :=
  match TableFile.contentsOf bytes with
  | .error fault => .error (.ofCause (.table fault))
  | .ok c => graphOfContents c

/-- The graph in a table file. A directory can be opened, but holds no table. -/
def loadTable (s : Store) (path : String) : Except Failure Graph :=
  match s.read path with
  | .ok (.table t) => (Graph.ofTable t).mapError Failure.ofTableError
  | .ok (.text chars) => graphOfBytes chars.toUTF8.data.toList
  | .ok (.other bytes) => graphOfBytes bytes
  | .error .isDirectory => .error ⟨[.tableAccess .isDirectory], .file .isDirectory⟩
  | .error fault => .error ⟨[.openingTable path], .file fault⟩

/-- The graph in a file of the given format. -/
def loadGraph (s : Store) (path : String) : Format → Except Failure Graph
  | .adjacency => loadAdjacency s path
  | .edgeList => loadEdgeList s path
  | .table => loadTable s path

/-- Write contents; `context` tells what a failure was about. -/
def writeContent (s : Store) (path : String) (context : Context) (content : Content) :
    Except Failure Store :=
  (s.write path content).mapError fun fault => ⟨[context], .file fault⟩

/-- Put a graph into a file: as a table if that is the format, else as adjacency text, with or
    without weights. -/
def saveGraph (s : Store) (path : String) (format : Format) (weighted : Bool) (g : Graph) :
    Except Failure Store :=
  match format with
  | .table => writeContent s path (.creatingTable path) (.table g.toTable)
  | _ =>
    writeContent s path (.writingAdjacency path)
      (.text (String.ofList (g.adjacencyText weighted)))

end SparseGraph.Files
