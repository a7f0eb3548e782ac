import SparseGraph.Backlog
import SparseGraph.Cell
import SparseGraph.CommandLine.Arguments
import SparseGraph.CommandLine.BenchArgs
import SparseGraph.CommandLine.Conversion
import SparseGraph.CommandLine.Measuring
import SparseGraph.CommandLine.Plan
import SparseGraph.CommandLine.Program
import SparseGraph.Compact.Reader
import SparseGraph.Component.Accesses
import SparseGraph.Component.LabelPropagation
import SparseGraph.Component.Schedule
import SparseGraph.Component.Sizes
import SparseGraph.Component.UnionFind
import SparseGraph.Decimal.Binary
import SparseGraph.Decimal.Fixed
import SparseGraph.Decimal.Reader
import SparseGraph.Decimal.Shortest
import SparseGraph.Failure
import SparseGraph.Files.Format
import SparseGraph.Files.GraphFile
import SparseGraph.Files.Path
import SparseGraph.Files.RecordFile
import SparseGraph.Files.Store
import SparseGraph.Graph.AdjacencyText
import SparseGraph.Graph.Basic
import SparseGraph.Graph.Build
import SparseGraph.Graph.EdgeListText
import SparseGraph.Graph.Layout
import SparseGraph.Graph.Symmetry
import SparseGraph.Graph.Table
import SparseGraph.Graph.Walk
import SparseGraph.GraphError
import SparseGraph.Json.Node
import SparseGraph.Json.Number
import SparseGraph.Json.Value
import SparseGraph.Loop
import SparseGraph.Loop.Visits
import SparseGraph.Main
import SparseGraph.NameMap
import SparseGraph.Proofs.Backlog
import SparseGraph.Proofs.Cell
import SparseGraph.Proofs.CommandLine.Conversion
import SparseGraph.Proofs.CommandLine.Verification
import SparseGraph.Proofs.Component.Accesses
import SparseGraph.Proofs.Component.Agreement
import SparseGraph.Proofs.Component.Announcements
import SparseGraph.Proofs.Component.Forest
import SparseGraph.Proofs.Component.Histories
import SparseGraph.Proofs.Component.Propagation
import SparseGraph.Proofs.Component.RoundBound
import SparseGraph.Proofs.Component.Sizes
import SparseGraph.Proofs.Decimal.Doubles
import SparseGraph.Proofs.Decimal.Rounding
import SparseGraph.Proofs.Decimal.Shortest
import SparseGraph.Proofs.Fallible
import SparseGraph.Proofs.Files.RankRecords
import SparseGraph.Proofs.Files.RecordFiles
import SparseGraph.Proofs.Files.TableFiles
import SparseGraph.Proofs.Files.WrittenFiles
import SparseGraph.Proofs.Graph.AdjacencyGrammar
import SparseGraph.Proofs.Graph.AdjacencyRoundTrip
import SparseGraph.Proofs.Graph.Arcs
import SparseGraph.Proofs.Graph.CountingSort
import SparseGraph.Proofs.Graph.EdgeListGrammar
import SparseGraph.Proofs.Graph.EdgeListText
import SparseGraph.Proofs.Graph.EdgeOrder
import SparseGraph.Proofs.Graph.EdgesBack
import SparseGraph.Proofs.Graph.Merging
import SparseGraph.Proofs.Graph.Parts
import SparseGraph.Proofs.Graph.Rows
import SparseGraph.Proofs.Graph.Symmetrized
import SparseGraph.Proofs.Graph.TableContents
import SparseGraph.Proofs.Graph.TableReading
import SparseGraph.Proofs.Graph.TableRoundTrip
import SparseGraph.Proofs.Graph.Tiling
import SparseGraph.Proofs.Graph.ValidParts
import SparseGraph.Proofs.Graph.VertexCount
import SparseGraph.Proofs.Json.FloatTexts
import SparseGraph.Proofs.Json.LegibleValues
import SparseGraph.Proofs.Json.Lexemes
import SparseGraph.Proofs.Json.Numbers
import SparseGraph.Proofs.Json.Scaling
import SparseGraph.Proofs.Json.Trees
import SparseGraph.Proofs.Json.Values
import SparseGraph.Proofs.Loop
import SparseGraph.Proofs.Loop.Cuts
import SparseGraph.Proofs.NameMap
import SparseGraph.Proofs.Rank.Contraction
import SparseGraph.Proofs.Rank.Mass
import SparseGraph.Proofs.Rank.Reference
import SparseGraph.Proofs.Rank.Splitting
import SparseGraph.Proofs.Report.LegibleRecords
import SparseGraph.Proofs.Report.Records
import SparseGraph.Proofs.ShortestPath.BothDirections
import SparseGraph.Proofs.ShortestPath.BucketOrder
import SparseGraph.Proofs.ShortestPath.Buffers
import SparseGraph.Proofs.ShortestPath.Confluence
import SparseGraph.Proofs.ShortestPath.DeltaStepping
import SparseGraph.Proofs.ShortestPath.Distances
import SparseGraph.Proofs.ShortestPath.Histories
import SparseGraph.Proofs.ShortestPath.Relaxation
import SparseGraph.Proofs.ShortestPath.WholeRuns
import SparseGraph.Proofs.ShortestPath.WorkCounters
import SparseGraph.Proofs.Text.Numerals
import SparseGraph.Proofs.Text.Tokens
import SparseGraph.Proofs.Worklist
import SparseGraph.Rank.Arithmetic
import SparseGraph.Rank.Course
import SparseGraph.Rank.History
import SparseGraph.Rank.PageRank
import SparseGraph.Report.CounterReport
import SparseGraph.Report.Readings
import SparseGraph.Report.Record
import SparseGraph.Report.RecordReader
import SparseGraph.Report.Summary
import SparseGraph.ShortestPath.Buffers
import SparseGraph.ShortestPath.DeltaStepping
import SparseGraph.ShortestPath.Dijkstra
import SparseGraph.ShortestPath.Distance
import SparseGraph.ShortestPath.History
import SparseGraph.ShortestPath.LeastWeight
import SparseGraph.ShortestPath.Schedule
import SparseGraph.ShortestPath.State
import SparseGraph.TableFile.Bytes
import SparseGraph.TableFile.Codes
import SparseGraph.TableFile.Columns
import SparseGraph.TableFile.Contents
import SparseGraph.TableFile.Embedded
import SparseGraph.TableFile.Fault
import SparseGraph.TableFile.Leaf
import SparseGraph.TableFile.Meaning
import SparseGraph.TableFile.Metadata
import SparseGraph.TableFile.Pages
import SparseGraph.TableFile.RowGroups
import SparseGraph.TableFile.Schema
import SparseGraph.Text.Blank
import SparseGraph.Text.Invisible
import SparseGraph.Text.Numeral
import SparseGraph.Text.Quoted
import SparseGraph.Text.Words
import SparseGraph.Worklist
import SparseGraph.Proofs.ShortestPath.CompleteRuns
import SparseGraph.Proofs.ShortestPath.SettledOnce
