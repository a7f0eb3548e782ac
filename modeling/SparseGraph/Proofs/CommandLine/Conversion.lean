import SparseGraph.CommandLine.Conversion
import SparseGraph.Proofs.Files.WrittenFiles
import SparseGraph.Proofs.Graph.EdgeListText
import SparseGraph.Proofs.Graph.TableRoundTrip

namespace SparseGraph

/-!
# Converted graphs are loaded again

A conversion writes a table or an adjacency text, and either gives the graph again to whoever loads
it as what it is. The format that the path of an adjacency text suggests may be another one: that of
edge lists, which no conversion writes.

* `Files.loadGraph_table_of_saveGraph`, `Files.loadText_of_saveGraph` — what is loaded from a file
  that a graph was saved in;
* `CommandLine.convertedGraph_eq_ok_iff` — the graph that is converted;
* `CommandLine.loadGraph_of_convert` — what is loaded after a conversion.
-/

open Text (maxWord)

/-! ### Saved graphs -/

namespace Files

variable {s s' : Store} {path : String} {reading parsing : Context} {format : Format}
  {weighted : Bool} {g h : Graph} {parse : List Char → Except GraphError Graph}

/-- A graph is loaded if the file is a text of one. -/
theorem loadText_eq_ok_iff :
    loadText s path reading parsing parse = .ok g ↔
      ∃ text, readText s path = .ok text ∧ parse text.toList = .ok g := by
  unfold loadText
  cases readText s path with
  | error fault => simp
  | ok text => simp [mapError_eq_ok_iff]

/-- A table that was saved is loaded. -/
theorem loadGraph_table_of_saveGraph (hsave : saveGraph s path .table weighted g = .ok s')
    (hnull : place path ≠ nullFile) (hn : g.numNodes ≤ maxWord) :
    loadGraph s' path .table = .ok g := by
  have hread := Store.read_of_write (mapError_eq_ok_iff.1 hsave) hnull
  unfold loadGraph loadTable
  simp only [hread, Graph.ofTable_toTable hn]
  rfl

/-- A graph that was not saved as a table is loaded as its adjacency text is read. -/
theorem loadText_of_saveGraph (hsave : saveGraph s path format weighted g = .ok s')
    (hformat : format ≠ .table) (hnull : place path ≠ nullFile)
    (hparse : parse (g.adjacencyText weighted) = .ok h) :
    loadText s' path reading parsing parse = .ok h := by
  have hwrite : s.write path (.text (String.ofList (g.adjacencyText weighted))) = .ok s' := by
    cases format with
    | table => exact absurd rfl hformat
    | adjacency => exact mapError_eq_ok_iff.1 hsave
    | edgeList => exact mapError_eq_ok_iff.1 hsave
  have hread := Store.read_of_write hwrite hnull
  refine loadText_eq_ok_iff.2 ⟨String.ofList (g.adjacencyText weighted), ?_, ?_⟩
  · unfold readText
    rw [hread]
  · rw [String.toList_ofList, hparse]

end Files

/-! ### Conversions -/

namespace CommandLine

open Files (Store Format readText loadGraph saveGraph place nullFile)

variable {store : Store} {given : Given} {input : String} {symmetrize : Bool} {g : Graph}

/-- **The graph that is converted** is that of the text, made symmetric if asked. -/
theorem convertedGraph_eq_ok_iff :
    convertedGraph store input symmetrize = .ok g ↔
      ∃ text g₀, readText store input = .ok text ∧ Graph.ofEdgeListText text.toList = .ok g₀ ∧
        (if symmetrize then g₀.symmetrized else .ok g₀) = .ok g := by
  have hsame : ∀ g₀ : Graph,
      (if symmetrize then g₀.symmetrized.mapError Failure.ofGraphError else .ok g₀) = .ok g ↔
        (if symmetrize then g₀.symmetrized else .ok g₀) = .ok g := by
    intro g₀
    cases symmetrize with
    | true => exact mapError_eq_ok_iff
    | false => simp only [Bool.false_eq_true, if_false, Except.ok.injEq]
  unfold convertedGraph Files.loadEdgeList
  simp only [bind_eq_ok_iff, mapError_eq_ok_iff, Files.loadText_eq_ok_iff]
  constructor
  · rintro ⟨g₀, ⟨text, htext, hg₀⟩, hg⟩
    exact ⟨text, g₀, htext, hg₀, (hsame g₀).1 hg⟩
  · rintro ⟨text, g₀, htext, hg₀, hg⟩
    exact ⟨g₀, ⟨text, htext, hg₀⟩, (hsame g₀).2 hg⟩

/-- A converted graph has weights of 1, and its vertices are counted in 32 bits. -/
theorem plain_of_convertedGraph (h : convertedGraph store input symmetrize = .ok g) :
    g.isWeighted = false ∧ g.numNodes ≤ maxWord := by
  obtain ⟨text, g₀, _, hg₀, hg⟩ := convertedGraph_eq_ok_iff.1 h
  have hweights := Graph.isWeighted_of_ofEdgeListText hg₀
  have hn := Graph.numNodes_le_of_ofEdgeListText hg₀
  cases symmetrize with
  | true =>
    refine ⟨Graph.isWeighted_of_symmetrized hg hweights, ?_⟩
    rw [Graph.numNodes_symmetrized hg]
    exact hn
  | false =>
    cases hg
    exact ⟨hweights, hn⟩

/-- The path of the edge list. -/
def inputPath (given : Given) : String :=
  (given.value? "INPUT").getD ""

/-- The path of the graph file. -/
def outputPath (given : Given) : String :=
  (given.value? "OUTPUT").getD ""

/-- A conversion that succeeds has saved the converted graph. -/
theorem saveGraph_of_convert (h : (convert store given).status = .success) :
    ∃ g, convertedGraph store (inputPath given) (given.has "symmetrize") = .ok g ∧
      saveGraph store (outputPath given) (.ofPath (outputPath given)) (!given.has "no-weights") g =
        .ok (convert store given).store := by
  unfold inputPath outputPath
  unfold convert at h ⊢
  cases hgraph : convertedGraph store ((given.value? "INPUT").getD "") (given.has "symmetrize") with
  | error failure =>
    rw [hgraph] at h
    cases h
  | ok g =>
    simp only [hgraph] at h ⊢
    cases hsave : saveGraph store ((given.value? "OUTPUT").getD "")
        (.ofPath ((given.value? "OUTPUT").getD "")) (!given.has "no-weights") g with
    | error failure =>
      rw [hsave] at h
      cases h
    | ok saved => exact ⟨g, rfl, hsave⟩

/-- **What is loaded after a conversion** is the converted graph, from a table or from an adjacency
    text whose path suggests that it is one. The path may instead suggest an edge list; then the
    text still gives the graph to whoever knows what it is, but taken for an edge list it gives the
    graph without vertices. -/
theorem loadGraph_of_convert (hsuccess : (convert store given).status = .success)
    (hnull : place (outputPath given) ≠ nullFile) :
    ∃ text g₀ g, readText store (inputPath given) = .ok text ∧
      Graph.ofEdgeListText text.toList = .ok g₀ ∧
      (if given.has "symmetrize" then g₀.symmetrized else .ok g₀) = .ok g ∧
      (Format.ofPath (outputPath given) ≠ .edgeList →
        loadGraph (convert store given).store (outputPath given) (.ofPath (outputPath given)) =
          .ok g) ∧
      (Format.ofPath (outputPath given) = .edgeList →
        loadGraph (convert store given).store (outputPath given) .adjacency = .ok g ∧
        loadGraph (convert store given).store (outputPath given) (.ofPath (outputPath given)) =
          .ok Graph.empty) := by
  obtain ⟨g, hgraph, hsave⟩ := saveGraph_of_convert hsuccess
  obtain ⟨text, g₀, htext, hg₀, hg⟩ := convertedGraph_eq_ok_iff.1 hgraph
  obtain ⟨hweights, hn⟩ := plain_of_convertedGraph hgraph
  -- There are no weights to lose, so the text gives the graph with and without them.
  have hadjacency : Graph.ofAdjacencyText (g.adjacencyText (!given.has "no-weights")) = .ok g := by
    rw [Graph.ofAdjacencyText_adjacencyText hn, Graph.unweighted_eq_self_iff.2 hweights, ite_self]
  refine ⟨text, g₀, g, htext, hg₀, hg, ?_, ?_⟩
  · intro hformat
    cases hpath : Format.ofPath (outputPath given) with
    | edgeList => exact absurd hpath hformat
    | adjacency =>
      exact Files.loadText_of_saveGraph hsave (by rw [hpath]; decide) hnull hadjacency
    | table =>
      rw [hpath] at hsave
      exact Files.loadGraph_table_of_saveGraph hsave hnull hn
  · intro hpath
    have hformat : Format.ofPath (outputPath given) ≠ .table := by
      rw [hpath]
      decide
    constructor
    · exact Files.loadText_of_saveGraph hsave hformat hnull hadjacency
    · rw [hpath]
      exact Files.loadText_of_saveGraph hsave hformat hnull
        (Graph.ofEdgeListText_adjacencyText g _)

instance (s : Status) : Decidable (s = .success) :=
  match s with
  | .success => .isTrue rfl
  | .failed _ => .isFalse (by rintro ⟨⟩)
  | .refused _ => .isFalse (by rintro ⟨⟩)

/-- A file with one edge. -/
def edgeFile : Store :=
  { files := [(["e.snap"], .text "0 1\n")] }

/-- Convert that file. -/
def convertEdgeFile (output : String) : Given :=
  [("INPUT", "e.snap"), ("OUTPUT", output)]

theorem loadGraph_of_convert_adj :
    let given := convertEdgeFile "g.adj"
    (convert edgeFile given).status = .success ∧ place (outputPath given) ≠ nullFile ∧
    ∃ text g₀ g, readText edgeFile (inputPath given) = .ok text ∧
      Graph.ofEdgeListText text.toList = .ok g₀ ∧
      (if given.has "symmetrize" then g₀.symmetrized else .ok g₀) = .ok g ∧
      (Format.ofPath (outputPath given) ≠ .edgeList →
        loadGraph (convert edgeFile given).store (outputPath given) (.ofPath (outputPath given)) =
          .ok g) ∧
      (Format.ofPath (outputPath given) = .edgeList →
        loadGraph (convert edgeFile given).store (outputPath given) .adjacency = .ok g ∧
        loadGraph (convert edgeFile given).store (outputPath given) (.ofPath (outputPath given)) =
          .ok Graph.empty) := by
  have hsuccess : (convert edgeFile (convertEdgeFile "g.adj")).status = .success := by decide +kernel
  have hnull : place (outputPath (convertEdgeFile "g.adj")) ≠ nullFile := by decide
  exact ⟨hsuccess, hnull, loadGraph_of_convert hsuccess hnull⟩

/-- **A path can mislead:** the edge is converted and written, but by its path the text is taken for
    an edge list and gives no edge. -/
theorem convert_txt_misleads :
    let given := convertEdgeFile "g.txt"
    (convert edgeFile given).status = .success ∧
      convertedGraph edgeFile (inputPath given) (given.has "symmetrize") =
        .ok Graph.oneEdge.unweighted ∧
      loadGraph (convert edgeFile given).store (outputPath given) (.ofPath (outputPath given)) ≠
        .ok Graph.oneEdge.unweighted := by
  have hsuccess : (convert edgeFile (convertEdgeFile "g.txt")).status = .success := by decide +kernel
  exact ⟨hsuccess, by decide +kernel, by decide +kernel⟩

end CommandLine

end SparseGraph
