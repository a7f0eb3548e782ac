import Mathlib.Data.List.Nodup
import SparseGraph.Proofs.Graph.TableContents

namespace SparseGraph.Graph

open Text (maxWord)

/-!
# Which tables are read

What a table must be like to give a graph, told of its metadata and of its rows as a whole. Nothing else
counts: the rows may come in any batches, and the columns in any order among others.

* `find?_name_of_perm` — columns are found in whatever order they stand;
* `Batch.cut` — rows in batches;
* `Table.edges_cut` — cutting rows changes neither the edges nor the fault;
* `Table.scan`, `Table.pass` — a table read in one pass over its batches;
* `exists_ofDeclared_iff` — which numbers may be declared for edges;
* `Coherent` — metadata and rows that go together;
* `ofTable_coherent` — a table is read if and only if it is coherent, and what graph it is.
-/

variable {b b' : Batch} {t t' : Table} {metadata : List (String × Option String)} {name : String}
  {numNodes numEdges : Option Nat} {edges : List Edge} {g : Graph} {sizes : List Nat}

/-! ### Columns in any order -/

/-- The edges depend on no other columns, nor on the order of columns of different names. -/
theorem Batch.edges_congr
    (h : ∀ name ∈ ["source", "target", "weight"],
      b.columns.find? (·.name == name) = b'.columns.find? (·.name == name)) :
    b.edges = b'.edges := by
  have hwords : ∀ name ∈ ["source", "target", "weight"], b.words name = b'.words name := by
    intro name hname
    unfold Batch.words
    rw [h name hname]
  unfold Batch.edges
  rw [hwords "source" (by simp), hwords "target" (by simp), hwords "weight" (by simp)]

/-- If no two columns have one name, a column is found by its name. -/
theorem find?_name_eq_some_iff {columns : List Column} (hnames : (columns.map Column.name).Nodup)
    {c : Column} : columns.find? (·.name == name) = some c ↔ c ∈ columns ∧ c.name = name := by
  constructor
  · intro hfind
    have hname := List.find?_some hfind
    exact ⟨List.mem_of_find?_eq_some hfind, beq_iff_eq.1 hname⟩
  · rintro ⟨hc, rfl⟩
    cases hfind : columns.find? (·.name == c.name) with
    | none => exact absurd (beq_self_eq_true c.name) (List.find?_eq_none.1 hfind c hc)
    | some c' =>
      have hname := List.find?_some hfind
      rw [List.inj_on_of_nodup_map hnames (List.mem_of_find?_eq_some hfind) hc (beq_iff_eq.1 hname)]

/-- Columns of different names are found in whatever order they stand. -/
theorem find?_name_of_perm {columns columns' : List Column} (hperm : columns.Perm columns')
    (hnames : (columns'.map Column.name).Nodup) (name : String) :
    columns.find? (·.name == name) = columns'.find? (·.name == name) := by
  apply Option.ext
  intro c
  rw [find?_name_eq_some_iff ((hperm.map Column.name).nodup_iff.2 hnames),
    find?_name_eq_some_iff hnames, hperm.mem_iff]

/-! ### Rows in batches -/

/-- Some of the values of a column: as many from the `i`-th on. -/
def ColumnData.slice (i count : Nat) : ColumnData → ColumnData
  | .words values => .words ((values.drop i).take count)
  | .other type size => .other type (min count (size - i))

theorem ColumnData.size_slice (i count : Nat) (data : ColumnData) :
    (data.slice i count).size = min count (data.size - i) := by
  cases data with
  | words values => simp [slice, size]
  | other type n => rfl

namespace Batch

/-- Some of the rows. -/
def slice (b : Batch) (i count : Nat) : Batch where
  rows := min count (b.rows - i)
  columns := b.columns.map fun c => ⟨c.name, c.data.slice i count⟩
  size_eq := by
    simp only [List.mem_map]
    rintro _ ⟨c, hc, rfl⟩
    rw [ColumnData.size_slice, b.size_eq c hc]

/-- The rows from the `i`-th on in batches of these sizes, the last batch with what is left. -/
def cutFrom (b : Batch) : Nat → List Nat → List Batch
  | i, [] => if i < b.rows then [b.slice i (b.rows - i)] else []
  | i, size :: sizes => b.slice i size :: b.cutFrom (i + size) sizes

/-- The rows in batches of these sizes, some of which may be empty. -/
def cut (b : Batch) (sizes : List Nat) : List Batch :=
  b.cutFrom 0 sizes

theorem words_slice (b : Batch) (i count : Nat) (name : String) :
    (b.slice i count).words name = (b.words name).map fun values => (values.drop i).take count := by
  have hfind : (b.slice i count).columns.find? (·.name == name) =
      (b.columns.find? (·.name == name)).map fun c => ⟨c.name, c.data.slice i count⟩ :=
    List.find?_map
  unfold words
  rw [hfind]
  cases b.columns.find? (·.name == name) with
  | none => rfl
  | some c => obtain ⟨_, values | ⟨type, size⟩⟩ := c <;> rfl

/-- Some of the rows are some of the edges. -/
theorem HasEdges.slice (h : b.HasEdges edges) (i count : Nat) :
    (b.slice i count).HasEdges ((edges.drop i).take count) := by
  have hslice : ∀ {name values}, b.Holds name values →
      (b.slice i count).Holds name ((values.drop i).take count) := by
    intro name values hvalues
    rw [← words_eq_ok_iff, words_slice, words_eq_ok_iff.2 hvalues]
    rfl
  constructor
  · rw [List.map_take, List.map_drop]
    exact hslice h.sources
  · rw [List.map_take, List.map_drop]
    exact hslice h.targets
  · rw [List.map_take, List.map_drop]
    exact hslice h.weights

/-- Some of the rows have the fault of all of them. -/
theorem edges_slice_error {fault : GraphError} (h : b.edges = .error fault) (i count : Nat) :
    (b.slice i count).edges = .error fault := by
  unfold edges at h ⊢
  simp only [words_slice]
  -- The fault is that of the first column that is missing or of another type.
  cases hs : b.words "source" with
  | error _ => rw [hs] at h; exact h
  | ok ss =>
    cases ht : b.words "target" with
    | error _ => rw [hs, ht] at h; exact h
    | ok ts =>
      cases hw : b.words "weight" with
      | error _ => rw [hs, ht, hw] at h; exact h
      | ok ws => rw [hs, ht, hw] at h; cases h

/-- The edges of the batches follow one another. -/
theorem forall₂_cutFrom (h : b.HasEdges edges) (sizes : List Nat) (i : Nat) :
    ∃ parts, List.Forall₂ (fun b es => Batch.edges b = .ok es) (b.cutFrom i sizes) parts ∧
      parts.flatten = edges.drop i := by
  induction sizes generalizing i with
  | nil =>
    unfold cutFrom
    split
    next hi =>
      refine ⟨[_], .cons (edges_eq_ok_iff.2 (h.slice i _)) .nil, ?_⟩
      rw [List.flatten_singleton, ← h.length_eq, ← List.length_drop, List.take_length]
    next hi =>
      -- All rows have been handed out, so there is no last batch.
      refine ⟨[], .nil, ?_⟩
      rw [← h.length_eq, Nat.not_lt] at hi
      rw [List.drop_of_length_le hi, List.flatten_nil]
  | cons size sizes ih =>
    obtain ⟨parts, hparts, hflat⟩ := ih (i + size)
    refine ⟨_ :: parts, .cons (edges_eq_ok_iff.2 (h.slice i size)) hparts, ?_⟩
    rw [List.flatten_cons, hflat, ← List.drop_drop, List.take_append_drop]

/-- There is a first batch, and it is made of some of the rows. -/
theorem exists_cut_eq_cons (hrows : 0 < b.rows) (sizes : List Nat) :
    ∃ count rest, b.cut sizes = b.slice 0 count :: rest := by
  unfold cut
  cases sizes with
  | nil =>
    rw [cutFrom, if_pos hrows]
    exact ⟨_, _, rfl⟩
  | cons size sizes => exact ⟨_, _, rfl⟩

end Batch

namespace Table

/-- **Cutting rows** changes neither the edges nor the fault. -/
theorem edges_cut (hrows : 0 < b.rows) (sizes : List Nat) :
    Table.edges ⟨metadata, b.cut sizes⟩ = b.edges := by
  cases hedges : b.edges with
  | ok edges =>
    obtain ⟨parts, hparts, hflat⟩ := Batch.forall₂_cutFrom (Batch.edges_eq_ok_iff.1 hedges) sizes 0
    rw [edges_of_batches hparts, hflat, List.drop_zero]
  | error fault =>
    -- The first batch has the fault already.
    obtain ⟨count, rest, hcut⟩ := Batch.exists_cut_eq_cons hrows sizes
    unfold Table.edges
    rw [hcut, List.mapM_cons, Batch.edges_slice_error hedges 0 count]
    rfl

/-! ### One pass over the batches -/

/-- The vertices that edges need if others need `n` already. -/
def needed (n : Nat) (edges : List Edge) : Nat :=
  edges.foldl (fun n e => max n (max e.source.toNat e.target.toNat + 1)) n

/-- Go on over a batch: its edges are added, and the vertices that they need. -/
def scanBatch (found : List Edge × Nat) (b : Batch) : Except GraphError (List Edge × Nat) := do
  let more ← b.edges
  return (found.1 ++ more, needed found.2 more)

/-- The edges of all batches, and how many vertices they need. -/
def scan (t : Table) : Except GraphError (List Edge × Nat) :=
  t.batches.foldlM scanBatch ([], 0)

/-- Why `n` vertices are less than edges need. Edges that need none have no largest vertex to be told. -/
def shortage (n : Nat) : Nat → Option TableError
  | 0 => none
  | largest + 1 => some (.graph (.malformed (.nodeCount n largest)))

theorem shortage_eq_some {n needed : Nat} (h : 0 < needed) :
    shortage n needed = some (.graph (.malformed (.nodeCount n (needed - 1)))) := by
  cases needed with
  | zero => exact absurd h (Nat.lt_irrefl 0)
  | succ largest => rfl

/-- The graph of a table, read in one pass. An error that is `none` is that of a largest vertex that is
    asked for without there being one. -/
def pass (t : Table) : Except (Option TableError) Graph := do
  let numNodes ← (t.declared .numNodes).mapError some
  let numEdges ← (t.declared .numEdges).mapError some
  let found ← t.scan.mapError fun fault => some (.graph fault)
  if numEdges.any (· ≠ found.1.length) then
    .error (some (.graph (.malformed (.edgeCount (numEdges.getD 0) found.1.length))))
  else
    match numNodes with
    | none => (ofEdgeList found.1).mapError fun fault => some (.graph fault)
    | some n =>
      if n < found.2 then .error (shortage n found.2)
      else (ofEdges n found.1).mapError fun fault => some (.graph fault)

/-- **One pass** finds the edges and the vertices that they need. -/
theorem scan_eq (t : Table) : t.scan = t.edges.map fun edges => (edges, nodesNeeded edges) := by
  have main (batches : List Batch) (found : List Edge × Nat) :
      batches.foldlM scanBatch found =
        (batches.mapM Batch.edges).map fun parts =>
          (found.1 ++ parts.flatten, needed found.2 parts.flatten) := by
    -- What was found before is kept in front, and a fault ends both readings at the same batch.
    induction batches generalizing found with
    | nil =>
      rw [List.foldlM_nil, List.mapM_nil]
      show Except.ok found = Except.ok (found.1 ++ [], found.2)
      rw [List.append_nil]
    | cons b batches ih =>
      rw [List.foldlM_cons, List.mapM_cons]
      unfold scanBatch
      cases b.edges with
      | error fault => rfl
      | ok more =>
        simp only [ok_bind]
        show batches.foldlM scanBatch (found.1 ++ more, needed found.2 more) = _
        rw [ih]
        cases batches.mapM Batch.edges with
        | error fault => rfl
        | ok parts =>
          show Except.ok _ = Except.ok _
          simp only [List.flatten_cons, List.append_assoc, needed, List.foldl_append]
  unfold scan Table.edges
  rw [main]
  cases t.batches.mapM Batch.edges with
  | error fault => rfl
  | ok parts => rfl

/-- **The pass always tells what is wrong:** where a largest vertex is asked for, there is one. -/
theorem pass_eq (t : Table) : t.pass = (ofTable t).mapError some := by
  unfold pass ofTable
  rw [scan_eq]
  cases t.declared .numNodes with
  | error fault => rfl
  | ok numNodes =>
    cases t.declared .numEdges with
    | error fault => rfl
    | ok numEdges =>
      cases t.edges with
      | error fault => rfl
      | ok edges =>
        show (if _ then _ else _) = ((ofDeclared numNodes numEdges edges).mapError _).mapError _
        unfold ofDeclared
        split
        · rfl
        · cases numNodes with
          | none => cases ofEdgeList edges <;> rfl
          | some n =>
            dsimp only
            split
            next hlt =>
              -- More vertices are needed than declared, so at least one is.
              rw [shortage_eq_some (Nat.zero_lt_of_lt hlt)]
              rfl
            next => cases ofEdges n edges <;> rfl

end Table

/-! ### Metadata and rows together -/

/-- **Which numbers may be declared for edges:** of edges just their number, if any, and of vertices no
    less than the edges need. If no number of vertices is declared, words must be able to count the ones
    that the edges need. -/
theorem exists_ofDeclared_iff (hn : ∀ n ∈ numNodes, n ≤ maxWord) :
    (∃ g, ofDeclared numNodes numEdges edges = .ok g) ↔
      (∀ m ∈ numEdges, m = edges.length) ∧
        (∀ e ∈ edges,
          e.source.toNat < numNodes.getD maxWord ∧ e.target.toNat < numNodes.getD maxWord) ∧
        edges.length ≤ maxWord := by
  simp only [ofDeclared_eq_ok_iff, exists_and_left, ← nodesNeeded_le_iff]
  refine and_congr_right fun _ => ?_
  cases numNodes with
  | none =>
    show (∀ n ∈ none, nodesNeeded edges ≤ n) ∧ (∃ g, ofEdgeList edges = .ok g) ↔ _
    rw [exists_ofEdgeList_iff]
    simp
  | some n =>
    -- No edge strays beyond `n` vertices, so the builder has nothing left to refuse but the counts.
    show (∀ k ∈ some n, nodesNeeded edges ≤ k) ∧ (∃ g, ofEdges n edges = .ok g) ↔ _
    rw [exists_ofEdges_iff, firstStray?_eq_none_iff_needed]
    constructor
    · rintro ⟨_, _, hm, hneeded⟩
      exact ⟨hneeded, hm⟩
    · rintro ⟨hneeded, hm⟩
      exact ⟨fun k hk => Option.some.inj hk ▸ hneeded, hn n rfl, hm, hneeded⟩

/-- Metadata that declares these numbers, and rows that it may go with. -/
structure Coherent (metadata : List (String × Option String)) (b : Batch)
    (numNodes numEdges : Option Nat) : Prop where
  declares_nodes : Declares metadata .numNodes numNodes
  declares_edges : Declares metadata .numEdges numEdges
  columns : ∀ name ∈ ["source", "target", "weight"], ∃ values, b.Holds name values
  count : ∀ m ∈ numEdges, m = b.rows
  ends : ∀ name ∈ ["source", "target"], ∀ values, b.Holds name values →
    ∀ id ∈ values, id.toNat < numNodes.getD maxWord
  rows_le : b.rows ≤ maxWord

/-- **Coherent** are metadata and rows whose numbers may be declared for their edges. -/
theorem coherent_iff :
    Coherent metadata b numNodes numEdges ↔
      Declares metadata .numNodes numNodes ∧
        Declares metadata .numEdges numEdges ∧
        ∃ edges, b.HasEdges edges ∧ ∃ g, ofDeclared numNodes numEdges edges = .ok g := by
  constructor
  · intro h
    obtain ⟨edges, hedges⟩ := Batch.exists_hasEdges_iff.2 h.columns
    refine ⟨h.declares_nodes, h.declares_edges, edges, hedges,
      (exists_ofDeclared_iff h.declares_nodes.le_maxWord).2 ⟨?_, ?_, ?_⟩⟩
    · rw [hedges.length_eq]
      exact h.count
    · exact hedges.forall_ends_iff.1 h.ends
    · rw [hedges.length_eq]
      exact h.rows_le
  · rintro ⟨hnodes, hcount, edges, hedges, hgraph⟩
    obtain ⟨heq, hends, hle⟩ := (exists_ofDeclared_iff hnodes.le_maxWord).1 hgraph
    rw [hedges.length_eq] at heq hle
    exact ⟨hnodes, hcount, Batch.exists_hasEdges_iff.1 ⟨edges, hedges⟩, heq,
      hedges.forall_ends_iff.2 hends, hle⟩

/-! ### Tables that are read -/

/-- The graph of rows in batches. -/
theorem ofTable_cut_eq_ok_iff (hrows : 0 < b.rows) :
    ofTable ⟨metadata, b.cut sizes⟩ = .ok g ↔
      ∃ numNodes numEdges, Coherent metadata b numNodes numEdges ∧
        ∃ edges, b.HasEdges edges ∧ graphOf numNodes edges = .ok g := by
  simp only [ofTable_eq_ok_iff, Table.edges_cut hrows, Batch.edges_eq_ok_iff, coherent_iff]
  constructor
  · rintro ⟨numNodes, numEdges, edges, hnodes, hcount, hedges, hgraph⟩
    exact ⟨numNodes, numEdges, ⟨hnodes, hcount, edges, hedges, g, hgraph⟩, edges, hedges,
      (ofDeclared_eq_ok_iff.1 hgraph).2.2⟩
  · rintro ⟨numNodes, numEdges, ⟨hnodes, hcount, edges, hedges, g', hgraph⟩, edges', hedges', hg⟩
    cases hedges.unique hedges'
    have hsame := (ofDeclared_eq_ok_iff.1 hgraph).2.2
    rw [hg] at hsame
    cases hsame
    exact ⟨numNodes, numEdges, edges, hnodes, hcount, hedges, hgraph⟩

/-- Coherent metadata and rows are a graph. -/
theorem Coherent.exists_graph (h : Coherent metadata b numNodes numEdges) (hrows : 0 < b.rows)
    (sizes : List Nat) :
    ∃ edges g, b.HasEdges edges ∧ graphOf numNodes edges = .ok g ∧
      ofTable ⟨metadata, b.cut sizes⟩ = .ok g := by
  obtain ⟨_, _, edges, hedges, g, hgraph⟩ := coherent_iff.1 h
  have hg := (ofDeclared_eq_ok_iff.1 hgraph).2.2
  exact ⟨edges, g, hedges, hg,
    (ofTable_cut_eq_ok_iff hrows).2 ⟨numNodes, numEdges, h, edges, hedges, hg⟩⟩

/-- The graph of a table depends on its metadata and edges only. -/
theorem ofTable_congr (hmetadata : t.metadata = t'.metadata) (hedges : t.edges = t'.edges) :
    ofTable t = ofTable t' := by
  unfold ofTable Table.declared
  rw [hmetadata, hedges]

/-- A table whose rows are not as many as it declares is not read. -/
theorem exists_error_of_rows_ne {m : Nat}
    (hm : Declares t.metadata .numEdges (some m))
    (hne : total (t.batches.map Batch.rows) ≠ m) : ∃ fault, ofTable t = .error fault := by
  cases hof : ofTable t with
  | error fault => exact ⟨fault, rfl⟩
  | ok g =>
    obtain ⟨_, numEdges, edges, _, hnum, hedges, hgraph⟩ := ofTable_eq_ok_iff.1 hof
    rw [hnum.unique hm] at hgraph
    have hcount := (ofDeclared_eq_ok_iff.1 hgraph).1 m rfl
    rw [Table.length_edges hedges] at hcount
    exact absurd hcount.symm hne

/-- **A table is read if and only if it is coherent**, and the graph is then that of its edges, with as
    many vertices as it declares, if it does. Neither the batches matter nor other columns nor the order
    of the columns. If it does not hold as many rows as it declares, it is not read. And a pass over the
    batches never asks for the largest vertex of no edges. -/
theorem ofTable_coherent (metadata : List (String × Option String)) {whole : Batch}
    (hrows : 0 < whole.rows) (sizes : List Nat) :
    ((∃ g, ofTable ⟨metadata, whole.cut sizes⟩ = .ok g) ↔
        ∃ numNodes numEdges, Coherent metadata whole numNodes numEdges) ∧
      (∀ numNodes numEdges, Coherent metadata whole numNodes numEdges →
        ∃ edges g, whole.HasEdges edges ∧ graphOf numNodes edges = .ok g ∧
          ofTable ⟨metadata, whole.cut sizes⟩ = .ok g) ∧
      (∀ other : Batch, other.rows = whole.rows →
        ((∀ name ∈ ["source", "target", "weight"],
            other.columns.find? (·.name == name) = whole.columns.find? (·.name == name)) ∨
          (other.columns.Perm whole.columns ∧ (whole.columns.map Column.name).Nodup)) →
        ∀ sizes', ofTable ⟨metadata, other.cut sizes'⟩ = ofTable ⟨metadata, whole.cut sizes⟩) ∧
      (∀ (t : Table) (m : Nat), Declares t.metadata .numEdges (some m) →
        total (t.batches.map Batch.rows) ≠ m → ∃ fault, ofTable t = .error fault) ∧
      ∀ t : Table, t.pass = (ofTable t).mapError some := by
  refine ⟨?_, ?_, ?_, ?_, ?_⟩
  · constructor
    · rintro ⟨g, hg⟩
      obtain ⟨numNodes, numEdges, hcoherent, _⟩ := (ofTable_cut_eq_ok_iff hrows).1 hg
      exact ⟨numNodes, numEdges, hcoherent⟩
    · rintro ⟨numNodes, numEdges, hcoherent⟩
      obtain ⟨_, g, _, _, hof⟩ := hcoherent.exists_graph hrows sizes
      exact ⟨g, hof⟩
  · intro numNodes numEdges hcoherent
    exact hcoherent.exists_graph hrows sizes
  · intro other hother hcolumns sizes'
    have hfind : ∀ name ∈ ["source", "target", "weight"],
        other.columns.find? (·.name == name) = whole.columns.find? (·.name == name) := by
      rcases hcolumns with hfind | ⟨hperm, hnames⟩
      · exact hfind
      · exact fun name _ => find?_name_of_perm hperm hnames name
    refine ofTable_congr rfl ?_
    rw [Table.edges_cut (hother ▸ hrows), Table.edges_cut hrows, Batch.edges_congr hfind]
  · exact fun t m => exists_error_of_rows_ne
  · exact Table.pass_eq

/-! ### Four vertices, three of them used -/

/-- Metadata with an entry of its own, and with numerals between blanks and with a sign. -/
def fourAndThree : List (String × Option String) :=
  [("comment", some "x"), ("num_nodes", some " 4\n"), ("num_edges", some "+3")]

/-- Three rows, the columns in no order and one of them of no use. -/
def shuffled : Batch where
  rows := 3
  columns := [⟨"weight", .words [6, 2, 6]⟩, ⟨"label", .other .utf8 3⟩, ⟨"target", .words [3, 0, 1]⟩,
    ⟨"source", .words [0, 3, 0]⟩]
  size_eq := by decide

/-- The same rows, the columns in their usual order. -/
def unshuffled : Batch where
  rows := 3
  columns := [⟨"source", .words [0, 3, 0]⟩, ⟨"target", .words [3, 0, 1]⟩, ⟨"weight", .words [6, 2, 6]⟩,
    ⟨"label", .other .utf8 3⟩]
  size_eq := by decide

/-- The general theorem at the shuffled rows, in batches of one row, of none and of two, at the same rows
    with the columns in their usual order, at a table that lost its last row, and at one that declares
    too few vertices. -/
theorem ofTable_coherent_shuffled :
    0 < shuffled.rows ∧ Coherent fourAndThree shuffled (some 4) (some 3) ∧
      (∃ g, ofEdges 4 [⟨0, 3, 6⟩, ⟨3, 0, 2⟩, ⟨0, 1, 6⟩] = .ok g ∧
        ofTable ⟨fourAndThree, shuffled.cut [1, 0]⟩ = .ok g ∧
        ofTable ⟨fourAndThree, unshuffled.cut [2]⟩ = .ok g) ∧
      (∃ fault, ofTable ⟨fourAndThree, [shuffled.slice 0 2]⟩ = .error fault) ∧
      Table.pass ⟨[("num_nodes", some "2")], shuffled.cut [1, 0]⟩ =
        .error (some (.graph (.malformed (.nodeCount 2 3)))) := by
  have hrows : 0 < shuffled.rows := by decide
  have hnodes : Declares fourAndThree .numNodes (some 4) :=
    Table.declared_eq_ok_iff (t := ⟨fourAndThree, []⟩).1 (by decide +kernel)
  have hcount : Declares fourAndThree .numEdges (some 3) :=
    Table.declared_eq_ok_iff (t := ⟨fourAndThree, []⟩).1 (by decide +kernel)
  have hedges : shuffled.HasEdges [⟨0, 3, 6⟩, ⟨3, 0, 2⟩, ⟨0, 1, 6⟩] :=
    Batch.edges_eq_ok_iff.1 (by decide +kernel)
  have hcoherent : Coherent fourAndThree shuffled (some 4) (some 3) :=
    coherent_iff.2 ⟨hnodes, hcount, _, hedges,
      (exists_ofDeclared_iff hnodes.le_maxWord).2 (by decide +kernel)⟩
  obtain ⟨_, hread, hsame, hlost, hpass⟩ := ofTable_coherent fourAndThree hrows [1, 0]
  refine ⟨hrows, hcoherent, ?_, hlost _ 3 hcount (by decide), ?_⟩
  · obtain ⟨edges, g, hedges', hg, hof⟩ := hread _ _ hcoherent
    rw [hedges'.unique hedges] at hg
    exact ⟨g, hg, hof, (hsame unshuffled rfl (.inr ⟨by decide, by decide⟩) [2]).trans hof⟩
  · rw [hpass]
    decide +kernel

end SparseGraph.Graph
