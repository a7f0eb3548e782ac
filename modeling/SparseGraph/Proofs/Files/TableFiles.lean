import SparseGraph.Files.GraphFile
import SparseGraph.Proofs.Files.WrittenFiles
import SparseGraph.Proofs.Graph.TableRoundTrip

namespace SparseGraph

/-!
# Graphs in table files

A library that writes and reads table files may cut the rows into other batches than those that were
written, and may declare more than was declared. The graph does not depend on either: it is known by
what was declared and by the words of the three columns, batch after batch.

* `Graph.Table.words` — the words of a column over all batches;
* `Graph.Table.GivesBack` — what a table that is read must have of the one that was written;
* `Graph.Table.edges_of_words` — the rows of a table by its columns;
* `Graph.Table.ofTable_of_givesBack` — the graph of a table that is read;
* `Files.loadGraph_of_saved_table` — a graph that was saved in a table file is loaded.
-/

open Text (maxWord)

namespace Graph

variable {g : Graph} {name : String} {values : List UInt32} {b : Batch} {batches : List Batch}
  {t : Table}

/-- The words of the column with this name, over all batches in order. -/
def Table.words (t : Table) (name : String) : Except GraphError (List UInt32) :=
  (t.batches.mapM fun b : Batch => b.words name).map List.flatten

namespace Table

/-- What a table that is read has of the one that was written: under each key what was declared
    there, and in each column the words that were written, in the order of the rows and in whatever
    batches. -/
structure GivesBack (read written : Table) : Prop where
  metadata : ∀ entry ∈ written.metadata, read.metadata.find? (·.1 == entry.1) = some entry
  words : ∀ name values, written.words name = .ok values → read.words name = .ok values

/-- The words of a column are those of its batches. -/
theorem words_eq_ok_iff :
    t.words name = .ok values ↔
      ∃ parts, List.Forall₂ (fun b vs => Batch.words b name = .ok vs) t.batches parts ∧
        parts.flatten = values := by
  unfold words
  cases hparts : t.batches.mapM fun b : Batch => b.words name with
  | error fault =>
    simp only [Except.map, reduceCtorEq, false_iff, not_exists, not_and]
    intro parts h
    rw [mapM_eq_ok_iff.2 h] at hparts
    cases hparts
  | ok found =>
    simp only [Except.map, Except.ok.injEq]
    constructor
    · rintro rfl
      exact ⟨found, mapM_eq_ok_iff.1 hparts, rfl⟩
    · rintro ⟨parts, h, rfl⟩
      rw [mapM_eq_ok_iff.2 h] at hparts
      cases hparts
      rfl

end Table

/-- Rows one after another are put together from their columns. -/
theorem zipEdges_append {s₁ t₁ w₁ : List UInt32} (s₂ t₂ w₂ : List UInt32)
    (ht : t₁.length = s₁.length) (hw : w₁.length = s₁.length) :
    zipEdges (s₁ ++ s₂) (t₁ ++ t₂) (w₁ ++ w₂) = zipEdges s₁ t₁ w₁ ++ zipEdges s₂ t₂ w₂ := by
  induction s₁ generalizing t₁ w₁ with
  | nil =>
    rw [List.eq_nil_of_length_eq_zero ht, List.eq_nil_of_length_eq_zero hw]
    rfl
  | cons s s₁ ih =>
    obtain ⟨t, t₁, rfl⟩ := List.exists_cons_of_length_eq_add_one ht
    obtain ⟨w, w₁, rfl⟩ := List.exists_cons_of_length_eq_add_one hw
    rw [List.cons_append, List.cons_append, List.cons_append, zipEdges, zipEdges,
      ih (Nat.succ.inj ht) (Nat.succ.inj hw), List.cons_append]

/-- **The rows of batches** are those of their columns, which have one length in each batch. -/
theorem exists_edges_of_words {ss ts ws : List (List UInt32)}
    (hs : List.Forall₂ (fun b vs => Batch.words b "source" = .ok vs) batches ss)
    (ht : List.Forall₂ (fun b vs => Batch.words b "target" = .ok vs) batches ts)
    (hw : List.Forall₂ (fun b vs => Batch.words b "weight" = .ok vs) batches ws) :
    ∃ parts, List.Forall₂ (fun b es => Batch.edges b = .ok es) batches parts ∧
      parts.flatten = zipEdges ss.flatten ts.flatten ws.flatten := by
  induction hs generalizing ts ws with
  | nil =>
    cases ht
    cases hw
    exact ⟨[], .nil, rfl⟩
  | @cons b vs batches ss hb hs ih =>
    obtain _ | ⟨htb, ht⟩ := ht
    obtain _ | ⟨hwb, hw⟩ := hw
    obtain ⟨parts, hparts, hflat⟩ := ih ht hw
    refine ⟨_, .cons (Batch.edges_of_words hb htb hwb) hparts, ?_⟩
    rw [List.flatten_cons, List.flatten_cons, List.flatten_cons, List.flatten_cons, hflat,
      zipEdges_append _ _ _ ((Batch.length_words htb).trans (Batch.length_words hb).symm)
        ((Batch.length_words hwb).trans (Batch.length_words hb).symm)]

namespace Table

/-- **The rows of a table** are those of its columns. -/
theorem edges_of_words {sources targets weights : List UInt32}
    (hs : t.words "source" = .ok sources) (ht : t.words "target" = .ok targets)
    (hw : t.words "weight" = .ok weights) : t.edges = .ok (zipEdges sources targets weights) := by
  obtain ⟨ss, hss, rfl⟩ := words_eq_ok_iff.1 hs
  obtain ⟨ts, hts, rfl⟩ := words_eq_ok_iff.1 ht
  obtain ⟨ws, hws, rfl⟩ := words_eq_ok_iff.1 hw
  obtain ⟨parts, hparts, hflat⟩ := exists_edges_of_words hss hts hws
  rw [edges_of_batches hparts, hflat]

/-- The columns of the table of a graph. -/
theorem words_toTable (g : Graph) :
    g.toTable.words "source" = .ok (g.edges.map Edge.source) ∧
      g.toTable.words "target" = .ok (g.edges.map Edge.target) ∧
      g.toTable.words "weight" = .ok (g.edges.map Edge.weight) :=
  ⟨words_eq_ok_iff.2 ⟨[_], .cons rfl .nil, List.flatten_singleton⟩,
    words_eq_ok_iff.2 ⟨[_], .cons rfl .nil, List.flatten_singleton⟩,
    words_eq_ok_iff.2 ⟨[_], .cons rfl .nil, List.flatten_singleton⟩⟩

/-- The table of a graph has no other columns. -/
theorem name_of_words_toTable (h : g.toTable.words name = .ok values) :
    name = "source" ∨ name = "target" ∨ name = "weight" := by
  by_contra hname
  obtain ⟨hs, ht, hw⟩ : name ≠ "source" ∧ name ≠ "target" ∧ name ≠ "weight" := by
    simpa only [not_or] using hname
  obtain ⟨parts, hparts, _⟩ := words_eq_ok_iff.1 h
  -- There is one batch, and it has three columns.
  cases hparts with
  | cons hb _ =>
    simp [Batch.words, Ne.symm hs, Ne.symm ht, Ne.symm hw] at hb

/-- A table gives back that of a graph if it declares the numbers of the graph and holds the three
    columns of its edges. -/
theorem givesBack_toTable_iff :
    t.GivesBack g.toTable ↔
      (∀ entry ∈ g.toTable.metadata, t.metadata.find? (·.1 == entry.1) = some entry) ∧
        t.words "source" = .ok (g.edges.map Edge.source) ∧
        t.words "target" = .ok (g.edges.map Edge.target) ∧
        t.words "weight" = .ok (g.edges.map Edge.weight) := by
  obtain ⟨hs, ht, hw⟩ := words_toTable g
  constructor
  · rintro ⟨hmetadata, hwords⟩
    exact ⟨hmetadata, hwords _ _ hs, hwords _ _ ht, hwords _ _ hw⟩
  · rintro ⟨hmetadata, hs', ht', hw'⟩
    refine ⟨hmetadata, fun name values h => ?_⟩
    rcases name_of_words_toTable h with rfl | rfl | rfl
    · rw [← h, hs, hs']
    · rw [← h, ht, ht']
    · rw [← h, hw, hw']

/-- **The graph of a table that is read** is the one whose table was written. -/
theorem ofTable_of_givesBack (hn : g.numNodes ≤ maxWord) (h : t.GivesBack g.toTable) :
    ofTable t = .ok g := by
  obtain ⟨hmetadata, hs, ht, hw⟩ := givesBack_toTable_iff.1 h
  have htext : ∀ entry ∈ g.toTable.metadata, textUnder? t.metadata entry.1 = entry.2 := by
    intro entry hentry
    rw [textUnder?, hmetadata entry hentry]
    rfl
  have hnodes : t.declared .numNodes = .ok (some g.numNodes) :=
    declared_of_digits hn (htext _ List.mem_cons_self)
  have hcount : t.declared .numEdges = .ok (some g.numEdges) :=
    declared_of_digits g.numEdges_le (htext _ (List.mem_cons_of_mem _ List.mem_cons_self))
  refine ofTable_of_edges hn hnodes hcount ?_
  rw [edges_of_words hs ht hw, zipEdges_map]

end Table

end Graph

namespace Files

open SparseGraph.Graph (Table)

/-- **A graph that was saved in a table file is loaded:** at its path there is then its table, and
    whatever table a library gives back for it, loading that one succeeds with just the graph that
    was saved, whose edges keep their order and whose vertices without edges are kept. -/
theorem loadGraph_of_saved_table {g : Graph} (hn : g.numNodes ≤ maxWord) {s saved : Store}
    {path : String} {weighted : Bool} (hnull : place path ≠ nullFile)
    (hsave : saveGraph s path .table weighted g = .ok saved) :
    saved.read path = .ok (.table g.toTable) ∧ loadGraph saved path .table = .ok g ∧
      ∀ t : Table, t.GivesBack g.toTable →
        Graph.ofTable t = .ok g ∧
          ∀ found : Store, found.read path = .ok (.table t) →
            loadGraph found path .table = .ok g := by
  have hread := Store.read_of_write (mapError_eq_ok_iff.1 hsave) hnull
  have hload : ∀ t : Table, Graph.ofTable t = .ok g →
      ∀ found : Store, found.read path = .ok (.table t) → loadGraph found path .table = .ok g := by
    intro t hgraph found hfound
    unfold loadGraph loadTable
    simp only [hfound, hgraph]
    rfl
  refine ⟨hread, hload _ (Graph.ofTable_toTable hn) _ hread, fun t h => ?_⟩
  have hgraph := Table.ofTable_of_givesBack hn h
  exact ⟨hgraph, hload t hgraph⟩

/-! ### Rows in three batches -/

/-- Three edges in no order from one vertex, one edge from another, and a last vertex without
    edges. -/
def scattered : Graph where
  offsets := #[0, 3, 3, 4, 4]
  targets := #[2, 1, 1, 0]
  weights := #[9, 8, 7, 6]
  first_offset := rfl
  last_offset := rfl
  sorted_offsets := by decide
  size_weights := rfl
  target_lt := by simp

/-- The table of that graph as a library may give it back: with an entry of its own, and with its
    rows in three batches, one of them empty. -/
def scatteredRows : Table where
  metadata := [("ARROW:schema", none), ("num_nodes", some "4"), ("num_edges", some "4")]
  batches :=
    [{ rows := 3
       columns := [⟨"source", .words [0, 0, 0]⟩, ⟨"target", .words [2, 1, 1]⟩,
         ⟨"weight", .words [9, 8, 7]⟩]
       size_eq := by simp [Graph.ColumnData.size] },
     { rows := 0
       columns := [⟨"source", .words []⟩, ⟨"target", .words []⟩, ⟨"weight", .words []⟩]
       size_eq := by simp [Graph.ColumnData.size] },
     { rows := 1
       columns := [⟨"source", .words [2]⟩, ⟨"target", .words [0]⟩, ⟨"weight", .words [6]⟩]
       size_eq := by simp [Graph.ColumnData.size] }]

theorem loadGraph_of_saved_table_scattered :
    scattered.numNodes ≤ maxWord ∧ place "g.parquet" ≠ nullFile ∧
      scatteredRows.GivesBack scattered.toTable ∧
      ∃ saved, saveGraph .empty "g.parquet" .table true scattered = .ok saved ∧
        saved.read "g.parquet" = .ok (.table scattered.toTable) ∧
        loadGraph saved "g.parquet" .table = .ok scattered ∧
        Graph.ofTable scatteredRows = .ok scattered := by
  have hn : scattered.numNodes ≤ maxWord := by decide
  have hnull : place "g.parquet" ≠ nullFile := by decide
  have hback : scatteredRows.GivesBack scattered.toTable := by
    refine Table.givesBack_toTable_iff.2 ⟨?_, ?_, ?_, ?_⟩
    all_goals decide +kernel
  obtain ⟨saved, hsaved⟩ :
      ∃ saved, saveGraph .empty "g.parquet" .table true scattered = .ok saved := by
    have hfree : Store.empty.target "g.parquet" = .ok ["g.parquet"] := by decide +kernel
    refine ⟨Store.empty.put ["g.parquet"] (.table scattered.toTable), ?_⟩
    simp only [saveGraph, writeContent, Store.write, hfree]
    rfl
  obtain ⟨hread, hload, hany⟩ := loadGraph_of_saved_table hn hnull hsaved
  exact ⟨hn, hnull, hback, saved, hsaved, hread, hload, (hany scatteredRows hback).1⟩

end Files

end SparseGraph
