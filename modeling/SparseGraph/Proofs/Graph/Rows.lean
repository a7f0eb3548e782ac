import SparseGraph.Graph.Build
import SparseGraph.Proofs.Graph.Arcs

namespace SparseGraph.Graph

/-!
# Rows of a graph that is built

Packing rows and reading them back are inverse to each other, so a graph built from an edge list has
for each vertex the edges out of it, in the order of the list.

* `getElem?_starts` — a row begins behind all rows before it;
* `arcs_ofRows` — the arcs of a vertex are its row;
* `numNodes_of_ofEdges`, `arcs_of_ofEdges` — the vertices and arcs of a graph built from an edge
  list.
-/

/-! ### Packed rows -/

/-- A row begins behind all rows before it. -/
theorem getElem?_starts {α : Type} (first : Nat) (rows : List (List α)) {v : Nat}
    (hv : v ≤ rows.length) :
    (starts first rows)[v]? = some (first + (rows.take v).flatten.length) := by
  induction rows generalizing first v with
  | nil =>
    rw [Nat.le_zero.1 hv]
    rfl
  | cons row rows ih =>
    cases v with
    | zero => rfl
    | succ v =>
      rw [starts, List.getElem?_cons_succ, ih (first + row.length) (Nat.le_of_succ_le_succ hv),
        List.take_succ_cons, List.flatten_cons, List.length_append, Nat.add_assoc]

/-- The part of packed rows between the starts of two neighbours is the row between them. -/
theorem take_drop_flatten {α : Type} {rows : List (List α)} {v : Nat} {row : List α}
    (hrow : rows[v]? = some row) :
    (rows.flatten.drop (rows.take v).flatten.length).take
      ((rows.take (v + 1)).flatten.length - (rows.take v).flatten.length) = row := by
  obtain ⟨hv, rfl⟩ := List.getElem?_eq_some_iff.1 hrow
  have hsplit : rows.flatten =
      (rows.take v).flatten ++ (rows[v] ++ (rows.drop (v + 1)).flatten) := by
    rw [← List.flatten_cons, ← List.drop_eq_getElem_cons hv, ← List.flatten_append,
      List.take_append_drop]
  have hlength : (rows.take (v + 1)).flatten.length - (rows.take v).flatten.length =
      rows[v].length := by
    rw [List.take_succ_eq_append_getElem hv, List.flatten_append, List.length_append,
      Nat.add_sub_cancel_left, List.flatten_singleton]
  rw [hlength, hsplit, List.drop_left, List.take_left]

section
variable {rows : List (List Arc)} {count_le : rows.flatten.length ≤ Text.maxWord}
  {target_lt : ∀ a ∈ rows.flatten, a.target.toNat < rows.length}

theorem numNodes_ofRows : (ofRows rows count_le target_lt).numNodes = rows.length := by
  show (Array.map UInt32.ofNat (startsAfter #[] 0 rows)).size - 1 = _
  rw [startsAfter_empty, Array.size_map, List.size_toArray, length_starts, Nat.add_sub_cancel]

/-- The offset of a vertex counts the edges of the vertices before it. -/
theorem start_ofRows {v : Nat} (hv : v ≤ rows.length) :
    (ofRows rows count_le target_lt).start v = (rows.take v).flatten.length := by
  have hstart := getElem?_starts 0 rows hv
  have hle : (rows.take v).flatten.length ≤ rows.flatten.length := by
    have hmem := List.mem_of_getElem? hstart
    have hbound := (le_of_mem_starts hmem).2
    omega
  -- No offset exceeds the number of edges, so all of them are kept in 32 bits.
  have hlt : (rows.take v).flatten.length < UInt32.size := by
    unfold Text.maxWord at count_le
    simp only [UInt32.size]
    omega
  show ((Array.map UInt32.ofNat (startsAfter #[] 0 rows)).getD v 0).toNat = _
  rw [startsAfter_empty, Array.getD_eq_getD_getElem?, Array.getElem?_map, List.getElem?_toArray,
    hstart, Nat.zero_add, Option.map_some, Option.getD_some, UInt32.toNat_ofNat_of_lt' hlt]

/-- Arcs taken apart and put together again. -/
private theorem zipWith_target_weight (arcs : List Arc) :
    List.zipWith Arc.mk (arcs.map Arc.target) (arcs.map Arc.weight) = arcs := by
  induction arcs with
  | nil => rfl
  | cons a arcs ih => rw [List.map_cons, List.map_cons, List.zipWith_cons_cons, ih]

/-- **Packed rows are read back.** The arcs of a vertex are its row. -/
theorem arcs_ofRows {v : Nat} {row : List Arc} (hrow : rows[v]? = some row) :
    (ofRows rows count_le target_lt).arcs v = row := by
  have hv := (List.getElem?_eq_some_iff.1 hrow).1
  rw [arcs_eq_zipWith, start_ofRows (Nat.le_of_lt hv), start_ofRows hv]
  show List.zipWith Arc.mk ((rows.flatten.map Arc.target).toArray.extract _ _).toList
    ((rows.flatten.map Arc.weight).toArray.extract _ _).toList = row
  rw [Array.toList_extract, Array.toList_extract, List.extract_eq_take_drop,
    List.extract_eq_take_drop, ← List.map_drop, ← List.map_drop, ← List.map_take,
    ← List.map_take, zipWith_target_weight, take_drop_flatten hrow]

end

/-! ### Graphs of edge lists -/

variable {n : Nat} {edges : List Edge} {g : Graph}

/-- What is known of an edge list that was accepted. -/
theorem of_ofEdges (h : ofEdges n edges = .ok g) :
    n ≤ Text.maxWord ∧ firstStray? n edges = none ∧
      ∃ count_le target_lt, g = ofRows (rowLists (scatter n edges)) count_le target_lt := by
  unfold ofEdges at h
  split at h
  · cases h
  next hn =>
    split at h
    · cases h
    · split at h
      · cases h
      next hstray =>
        cases h
        exact ⟨Nat.le_of_not_lt hn, hstray, _, _, rfl⟩

/-- The graph has the vertices that were asked for. -/
theorem numNodes_of_ofEdges (h : ofEdges n edges = .ok g) : g.numNodes = n := by
  obtain ⟨_, _, _, _, rfl⟩ := of_ofEdges h
  rw [numNodes_ofRows, rowLists, List.length_map, Array.length_toList, size_scatter]

/-- No more vertices are taken than words can count. -/
theorem numNodes_le_of_ofEdges (h : ofEdges n edges = .ok g) : g.numNodes ≤ Text.maxWord := by
  rw [numNodes_of_ofEdges h]
  exact (of_ofEdges h).1

theorem firstStray?_cons (n : Nat) (e : Edge) (rest : List Edge) :
    firstStray? n (e :: rest) =
      if n ≤ e.source.toNat then some e.source.toNat
      else if n ≤ e.target.toNat then some e.target.toNat
      else firstStray? n rest := by
  unfold firstStray?
  rw [List.flatMap_cons, List.cons_append, List.cons_append, List.nil_append, List.find?_cons,
    List.find?_cons]
  by_cases hs : n ≤ e.source.toNat
  · simp [hs]
  · by_cases ht : n ≤ e.target.toNat
    · simp [hs, ht]
    · simp [hs, ht]

/-- No end is a stray one if all ends are vertices. -/
theorem firstStray?_eq_none_iff :
    firstStray? n edges = none ↔ ∀ e ∈ edges, e.source.toNat < n ∧ e.target.toNat < n := by
  unfold firstStray?
  rw [List.find?_eq_none]
  simp only [List.mem_flatMap, List.mem_cons, List.not_mem_nil, or_false, decide_eq_true_eq,
    Nat.not_le]
  constructor
  · exact fun h e he => ⟨h _ ⟨e, he, .inl rfl⟩, h _ ⟨e, he, .inr rfl⟩⟩
  · rintro h _ ⟨e, he, rfl | rfl⟩
    · exact (h e he).1
    · exact (h e he).2

/-- The first endpoint of an edge is a vertex as well as the second. -/
theorem source_lt_of_firstStray? (h : firstStray? n edges = none) {e : Edge} (he : e ∈ edges) :
    e.source.toNat < n :=
  (firstStray?_eq_none_iff.1 h e he).1

/-- **The edges of a vertex.** They are those of the list with this source, in the order of the
    list. -/
theorem arcs_of_ofEdges (h : ofEdges n edges = .ok g) (v : Nat) :
    g.arcs v = (edges.filter (·.source.toNat == v)).map Edge.arc := by
  by_cases hv : v < n
  · obtain ⟨_, _, _, _, rfl⟩ := of_ofEdges h
    apply arcs_ofRows
    unfold rowLists
    rw [List.getElem?_map, Array.getElem?_toList, getElem?_scatter, if_pos hv]
    rfl
  · -- Beyond the vertices there is neither an arc nor a source.
    have hnone : edges.filter (·.source.toNat == v) = [] := by
      rw [List.filter_eq_nil_iff]
      intro e he hsource
      have hlt := source_lt_of_firstStray? (of_ofEdges h).2.1 he
      rw [beq_iff_eq.1 hsource] at hlt
      exact hv hlt
    rw [hnone, arcs_of_le (by rw [numNodes_of_ofEdges h]; exact Nat.le_of_not_lt hv)]
    rfl

/-- An arc of the graph is an edge of the list. -/
theorem mem_arcs_of_ofEdges (h : ofEdges n edges = .ok g) {v : Nat} {a : Arc} :
    a ∈ g.arcs v ↔ ∃ e ∈ edges, e.source.toNat = v ∧ e.arc = a := by
  rw [arcs_of_ofEdges h]
  simp only [List.mem_map, List.mem_filter, beq_iff_eq, and_assoc]

end SparseGraph.Graph
