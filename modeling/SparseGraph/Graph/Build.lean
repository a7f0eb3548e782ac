import SparseGraph.Graph.Basic

namespace SparseGraph.Graph

open Text (maxWord)

/-!
# Graphs from edge lists

The edges are scattered into one row per source, which keeps the order they have in the list, and
the rows are then packed one after another.

* `starts` — where each of the rows begins when they are packed;
* `ofRows` — the graph whose vertices have these rows;
* `scatter` — the rows of an edge list;
* `ofEdges` — the graph with given vertices and edges, if they fit together;
* `ofEdgeList` — the graph of an edge list, with as many vertices as its ids need.
-/

/-! ### Packing rows -/

/-- Where rows begin when the first begins at `first`, and after the last row where it ends. -/
def starts {α : Type} (first : Nat) : List (List α) → List Nat
  | [] => [first]
  | row :: rows => first :: starts (first + row.length) rows

/-- The starts of rows behind those of the rows before them. -/
def startsAfter {α : Type} (done : Array Nat) (first : Nat) : List (List α) → Array Nat
  | [] => done.push first
  | row :: rows => startsAfter (done.push first) (first + row.length) rows

theorem toList_startsAfter {α : Type} (done : Array Nat) (first : Nat) (rows : List (List α)) :
    (startsAfter done first rows).toList = done.toList ++ starts first rows := by
  induction rows generalizing done first with
  | nil => simp [startsAfter, starts]
  | cons row rows ih => simp [startsAfter, starts, ih]

theorem startsAfter_empty {α : Type} (first : Nat) (rows : List (List α)) :
    startsAfter #[] first rows = (starts first rows).toArray := by
  apply Array.toList_inj.1
  simp [toList_startsAfter]

theorem length_starts {α : Type} (first : Nat) (rows : List (List α)) :
    (starts first rows).length = rows.length + 1 := by
  induction rows generalizing first with
  | nil => rfl
  | cons row rows ih => simp [starts, ih]

theorem getLast?_starts {α : Type} (first : Nat) (rows : List (List α)) :
    (starts first rows).getLast? = some (first + rows.flatten.length) := by
  induction rows generalizing first with
  | nil => rfl
  | cons row rows ih =>
    rw [starts, List.getLast?_cons, ih]
    simp [Nat.add_assoc]

theorem le_of_mem_starts {α : Type} {first s : Nat} {rows : List (List α)}
    (h : s ∈ starts first rows) : first ≤ s ∧ s ≤ first + rows.flatten.length := by
  induction rows generalizing first with
  | nil => simp_all [starts]
  | cons row rows ih =>
    rcases List.mem_cons.1 h with rfl | h
    · simp
    · have := ih h
      simp only [List.flatten_cons, List.length_append]
      omega

theorem pairwise_starts {α : Type} (first : Nat) (rows : List (List α)) :
    (starts first rows).Pairwise (· ≤ ·) := by
  induction rows generalizing first with
  | nil => simp [starts]
  | cons row rows ih =>
    refine List.pairwise_cons.2 ⟨fun s hs => ?_, ih _⟩
    have := (le_of_mem_starts hs).1
    omega

/-- The graph whose vertex `v` has the edges `rows[v]`. The hypotheses say that the edges can be
    counted in 32 bits and that their targets are vertices. -/
def ofRows (rows : List (List Arc)) (count_le : rows.flatten.length ≤ maxWord)
    (target_lt : ∀ a ∈ rows.flatten, a.target.toNat < rows.length) : Graph where
  offsets := (startsAfter #[] 0 rows).map UInt32.ofNat
  targets := (rows.flatten.map Arc.target).toArray
  weights := (rows.flatten.map Arc.weight).toArray
  first_offset := by
    rw [startsAfter_empty]
    cases rows <;> simp [starts]
  last_offset := by
    have hlast := getLast?_starts 0 rows
    -- The number of edges survives the cut to 32 bits.
    have hlt : rows.flatten.length < UInt32.size := by
      unfold maxWord at count_le
      simp only [UInt32.size]
      omega
    rw [startsAfter_empty, List.map_toArray, List.back?_toArray, List.getLast?_map, hlast]
    simp only [Option.map_some, Nat.zero_add, List.size_toArray, List.length_map]
    rw [UInt32.toNat_ofNat_of_lt' hlt]
  sorted_offsets := by
    rw [startsAfter_empty, List.map_toArray, List.pairwise_map]
    refine (pairwise_starts 0 rows).imp_of_mem fun {s t} _ ht hst => ?_
    have := (le_of_mem_starts ht).2
    unfold maxWord at count_le
    have hlt : t < UInt32.size := by simp only [UInt32.size]; omega
    rw [UInt32.le_iff_toNat_le, UInt32.toNat_ofNat_of_lt' hlt,
      UInt32.toNat_ofNat_of_lt' (Nat.lt_of_le_of_lt hst hlt)]
    exact hst
  size_weights := by simp only [List.size_toArray, List.length_map]
  target_lt := by
    intro t ht
    simp only [List.mem_toArray, List.mem_map] at ht
    obtain ⟨a, ha, rfl⟩ := ht
    rw [startsAfter_empty]
    have := target_lt a ha
    simp only [List.map_toArray, List.size_toArray, List.length_map, length_starts]
    omega

/-! ### Scattering edges -/

/-- The rows of an edge list: the row of a vertex holds the edges out of it, in the order of the
    list. -/
def scatter (n : Nat) (edges : List Edge) : Array (Array Arc) :=
  edges.foldl (fun rows e => rows.modify e.source.toNat (·.push e.arc)) (Array.replicate n #[])

theorem size_foldl_scatter (rows : Array (Array Arc)) (edges : List Edge) :
    (edges.foldl (fun rows e => rows.modify e.source.toNat (·.push e.arc)) rows).size =
      rows.size := by
  induction edges generalizing rows with
  | nil => rfl
  | cons e edges ih => rw [List.foldl_cons, ih, Array.size_modify]

theorem size_scatter (n : Nat) (edges : List Edge) : (scatter n edges).size = n := by
  simp [scatter, size_foldl_scatter]

theorem getElem?_foldl_scatter (rows : Array (Array Arc)) (edges : List Edge) (v : Nat) :
    (edges.foldl (fun rows e => rows.modify e.source.toNat (·.push e.arc)) rows)[v]? =
      rows[v]?.map (· ++ ((edges.filter (·.source.toNat == v)).map Edge.arc).toArray) := by
  induction edges generalizing rows with
  | nil => simp
  | cons e edges ih =>
    rw [List.foldl_cons, ih, Array.getElem?_modify]
    -- The first edge goes to the row of its source, in front of what follows there.
    by_cases h : e.source.toNat = v
    · subst h
      cases rows[e.source.toNat]? <;> simp
    · have hb : (e.source.toNat == v) = false := by simpa using h
      simp [h]

/-- The row of `v` holds the edges with source `v`, in the order of the list. -/
theorem getElem?_scatter (n : Nat) (edges : List Edge) (v : Nat) :
    (scatter n edges)[v]? =
      if v < n then some ((edges.filter (·.source.toNat == v)).map Edge.arc).toArray
      else none := by
  rw [scatter, getElem?_foldl_scatter, Array.getElem?_replicate]
  split <;> simp

/-- The rows as lists. -/
def rowLists (rows : Array (Array Arc)) : List (List Arc) :=
  rows.toList.map Array.toList

theorem length_flatten_modify_push (rows : List (Array Arc)) (i : Nat) (a : Arc) :
    ((rows.modify i (·.push a)).map Array.toList).flatten.length ≤
      (rows.map Array.toList).flatten.length + 1 := by
  induction rows generalizing i with
  | nil => simp
  | cons row rows ih =>
    cases i with
    | zero => simp; omega
    | succ i =>
      have := ih i
      simp only [List.modify_succ_cons, List.map_cons, List.flatten_cons, List.length_append]
        at this ⊢
      omega

theorem length_flatten_scatter_le (n : Nat) (edges : List Edge) :
    (rowLists (scatter n edges)).flatten.length ≤ edges.length := by
  have main (rows : Array (Array Arc)) :
      (rowLists (edges.foldl (fun rows e => rows.modify e.source.toNat (·.push e.arc))
        rows)).flatten.length ≤ (rowLists rows).flatten.length + edges.length := by
    induction edges generalizing rows with
    | nil => simp
    | cons e edges ih =>
      have h₁ := ih (rows.modify e.source.toNat (·.push e.arc))
      have h₂ := length_flatten_modify_push rows.toList e.source.toNat e.arc
      rw [← Array.toList_modify] at h₂
      simp only [List.foldl_cons, List.length_cons]
      unfold rowLists at *
      omega
  have := main (Array.replicate n #[])
  rw [scatter]
  simpa [rowLists] using this

theorem mem_flatten_scatter {n : Nat} {edges : List Edge} {a : Arc}
    (h : a ∈ (rowLists (scatter n edges)).flatten) : ∃ e ∈ edges, e.arc = a := by
  obtain ⟨row, hrow, ha⟩ := List.mem_flatten.1 h
  obtain ⟨r, hr, rfl⟩ := List.mem_map.1 hrow
  obtain ⟨v, hv⟩ := List.getElem?_of_mem hr
  rw [Array.getElem?_toList, getElem?_scatter] at hv
  split at hv
  · injection hv with hv
    subst hv
    simp only [List.mem_map, List.mem_filter] at ha
    obtain ⟨e, ⟨he, _⟩, hea⟩ := ha
    exact ⟨e, he, hea⟩
  · cases hv

/-- The first endpoint that is none of the vertices `0, …, n - 1`, in the order of the list and
    the source of an edge before its target. -/
def firstStray? (n : Nat) (edges : List Edge) : Option Nat :=
  (edges.flatMap fun e => [e.source.toNat, e.target.toNat]).find? (n ≤ ·)

theorem target_lt_of_firstStray? {n : Nat} {edges : List Edge} (h : firstStray? n edges = none)
    {e : Edge} (he : e ∈ edges) : e.target.toNat < n := by
  have := List.find?_eq_none.1 h e.target.toNat (List.mem_flatMap.2 ⟨e, he, by simp⟩)
  simpa using this

/-- The graph with the vertices `0, …, n - 1` and these edges. The edges out of a vertex keep the
    order they have in the list. The first fault is reported: of the number of vertices, of the
    number of edges, and last of the endpoints. -/
def ofEdges (n : Nat) (edges : List Edge) : Except GraphError Graph :=
  if maxWord < n then .error (.tooLarge n)
  else if hm : maxWord < edges.length then .error (.tooLarge edges.length)
  else
    match hs : firstStray? n edges with
    | some v => .error (.vertexOutOfBounds v n)
    | none => .ok (ofRows (rowLists (scatter n edges))
        (Nat.le_trans (length_flatten_scatter_le n edges) (Nat.le_of_not_lt hm))
        (fun a ha => by
          obtain ⟨e, he, rfl⟩ := mem_flatten_scatter ha
          have := target_lt_of_firstStray? hs he
          simpa [rowLists, size_scatter, Edge.arc] using this))

/-- How many vertices the ids of an edge list need. -/
def nodesNeeded (edges : List Edge) : Nat :=
  edges.foldl (fun n e => max n (max e.source.toNat e.target.toNat + 1)) 0

/-- The graph of an edge list, with as many vertices as its ids need. -/
def ofEdgeList (edges : List Edge) : Except GraphError Graph :=
  ofEdges (nodesNeeded edges) edges

end SparseGraph.Graph
