import SparseGraph.Proofs.Graph.EdgeOrder
import SparseGraph.Proofs.Graph.Layouts

namespace SparseGraph

open Text (maxWord)

/-!
# Filling arrays by counting

Counting the edges of each source, adding up the counts and putting each edge where its source has its
next one fills the arrays of the graph that packing the rows one after another gives. No count, offset
or cursor outgrows a word, and no edge is put outside of the row of its source.

* `Layout.countEdge_counts`, `Layout.foldlM_countEdge` — one edge is counted, and all of them;
* `Layout.foldlM_pushOffset` — the degrees add up to the offsets;
* `Layout.RowsFilled` — what there is of the rows; `Layout.RowsFilled.set` — one more edge;
* `Layout.Filling.Holds` — the arrays between two edges; `Layout.Filling.Holds.place`,
  `Layout.Filling.Holds.foldlM_place` — one edge is put in place, and all of them;
* `Layout.ofEdges_layout`, `Layout.ofEdges_eq_kept` — counting gives the graph, or the same fault;
* `FirstStray`, `Graph.ofEdges_eq_error_iff` — which fault is reported;
* `Layout.HoldsEdges`, `Layout.ofEdges_by_counting` — what is in the arrays, and when there are any.
-/

namespace Layout

variable {n : Nat} {e : Edge} {done rest edges : List Edge} {g : Graph} {v : Nat}

/-! ### Counting -/

/-- How many of the edges have this source. -/
def outCount (edges : List Edge) (v : Nat) : Nat :=
  edges.countP (·.source.toNat == v)

/-- How many of the edges have each source. -/
def counts (n : Nat) (edges : List Edge) : Array UInt32 :=
  ((List.range n).map fun v => UInt32.ofNat (outCount edges v)).toArray

theorem outCount_append (edges more : List Edge) (v : Nat) :
    outCount (edges ++ more) v = outCount edges v + outCount more v :=
  List.countP_append

theorem outCount_singleton_self (e : Edge) : outCount [e] e.source.toNat = 1 := by
  simp [outCount]

theorem outCount_singleton_of_ne (h : e.source.toNat ≠ v) : outCount [e] v = 0 := by
  simp [outCount, h]

theorem outCount_le_length (edges : List Edge) (v : Nat) : outCount edges v ≤ edges.length :=
  List.countP_le_length

theorem size_counts (n : Nat) (edges : List Edge) : (counts n edges).size = n := by
  simp [counts]

theorem getElem?_counts (n : Nat) (edges : List Edge) (v : Nat) :
    (counts n edges)[v]? = if v < n then some (UInt32.ofNat (outCount edges v)) else none := by
  unfold counts
  rw [List.getElem?_toArray, List.getElem?_map]
  split
  next h => rw [List.getElem?_range h, Option.map_some]
  next h => rw [List.getElem?_eq_none (by simpa using h), Option.map_none]

theorem counts_nil (n : Nat) : counts n [] = Array.replicate n 0 := by
  apply Array.ext_getElem?
  intro v
  rw [getElem?_counts, Array.getElem?_replicate]
  rfl

/-- **One more edge is counted,** if both of its ends are vertices and there are not too many. -/
theorem countEdge_counts (hs : e.source.toNat < n) (ht : e.target.toNat < n)
    (hlength : done.length < maxWord) :
    countEdge n (counts n done) e = .ok (counts n (done ++ [e])) := by
  have hcount : outCount done e.source.toNat + 1 ≤ maxWord := by
    have hle := outCount_le_length done e.source.toNat
    omega
  have hread : wordAt (counts n done) e.source.toNat =
      .ok (UInt32.ofNat (outCount done e.source.toNat)) := by
    rw [wordAt_eq_ok_iff, getElem?_counts, if_pos hs]
  have hwrite : (counts n done).setIfInBounds e.source.toNat
      (UInt32.ofNat (outCount done e.source.toNat + 1)) = counts n (done ++ [e]) := by
    apply Array.ext_getElem?
    intro v
    rw [Array.getElem?_setIfInBounds, size_counts, getElem?_counts, getElem?_counts,
      outCount_append]
    by_cases hv : e.source.toNat = v
    · subst hv
      rw [if_pos rfl, outCount_singleton_self]
    · rw [if_neg hv, outCount_singleton_of_ne hv, Nat.add_zero]
  unfold countEdge requireVertex
  rw [if_neg (Nat.not_le.2 hs), if_neg (Nat.not_le.2 ht), ok_bind, ok_bind, hread, ok_bind,
    show (1 : UInt32) = UInt32.ofNat 1 from rfl, addWords_ofNat hcount, ok_bind,
    setWord_of_lt (by rwa [size_counts]), hwrite]

/-- **All edges are counted,** or the first end that is no vertex is reported. -/
theorem foldlM_countEdge (hlength : (done ++ rest).length ≤ maxWord) :
    rest.foldlM (countEdge n) (counts n done) =
      match Graph.firstStray? n rest with
      | some v => .error (.refused (.vertexOutOfBounds v n))
      | none => .ok (counts n (done ++ rest)) := by
  induction rest generalizing done with
  | nil => rw [List.append_nil]; rfl
  | cons e rest ih =>
    rw [List.foldlM_cons, Graph.firstStray?_cons]
    by_cases hs : n ≤ e.source.toNat
    · simp [countEdge, requireVertex, hs, bind, Except.bind]
    · by_cases ht : n ≤ e.target.toNat
      · simp [countEdge, requireVertex, hs, ht, bind, Except.bind]
      · rw [List.append_cons] at hlength
        have hcount : done.length + 1 ≤ maxWord := by
          simp only [List.length_append, List.length_singleton] at hlength
          omega
        rw [if_neg hs, if_neg ht, countEdge_counts (Nat.not_le.1 hs) (Nat.not_le.1 ht) hcount,
          ok_bind, ih hlength, List.append_cons done e rest]

/-! ### Adding up -/

/-- The degrees of a graph that is built from an edge list are the counts. -/
theorem degree_of_ofEdges (h : Graph.ofEdges n edges = .ok g) (hv : v < n) :
    g.degree v = outCount edges v := by
  rw [← Graph.length_arcs (by rwa [Graph.numNodes_of_ofEdges h]), Graph.arcs_of_ofEdges h,
    List.length_map, outCount, List.countP_eq_length_filter]

/-- **Degrees add up to offsets:** those of the first vertices to the offsets up to the next one. -/
theorem foldlM_pushOffset {k : Nat} (hk : k ≤ g.numNodes) :
    ((List.range k).map fun v => UInt32.ofNat (g.degree v)).foldlM pushOffset (#[0], 0) =
      .ok ((g.offsets.toList.take (k + 1)).toArray, UInt32.ofNat (g.start k)) := by
  induction k with
  | zero =>
    rw [List.take_add_one, Array.getElem?_toList, g.getElem?_offsets hk, g.start_zero]
    rfl
  | succ k ih =>
    have hnext := Graph.start_add_degree (g := g) hk
    have hbound : g.start k + g.degree k ≤ maxWord := by
      rw [hnext]
      exact (Graph.start_le hk).trans g.numEdges_le
    rw [List.range_succ, List.map_append, List.foldlM_append, ih (Nat.le_of_succ_le hk), ok_bind,
      List.map_singleton, List.foldlM_cons, pushOffset, addWords_ofNat hbound, ok_bind, hnext,
      List.take_add_one (i := k + 1), Array.getElem?_toList, g.getElem?_offsets hk,
      List.push_toArray]
    rfl

/-! ### Filling rows -/

section
variable {α : Type} {l : List α} {a : α} {i first count : Nat}

/-- An entry behind the first ones of a row makes these one more. -/
theorem take_drop_set_next (h : first + count < l.length) :
    ((l.set (first + count) a).drop first).take (count + 1) =
      (l.drop first).take count ++ [a] := by
  have hlength : count < (l.drop first).length := by
    rw [List.length_drop]
    omega
  rw [List.drop_set, if_neg (by omega), Nat.add_sub_cancel_left,
    List.set_eq_take_append_cons_drop, if_pos hlength, List.append_cons, List.take_left']
  rw [List.length_append, List.length_take_of_le (Nat.le_of_lt hlength), List.length_singleton]

/-- An entry that is not among the first ones of a row leaves these alone. -/
theorem take_drop_set_of_notMem (h : i < first ∨ first + count ≤ i) :
    ((l.set i a).drop first).take count = (l.drop first).take count := by
  rw [List.drop_set]
  split
  next => rfl
  next hi => rw [List.take_set_of_le (by omega)]

end

/-- Of the row of each vertex so many words are filled as there are edges out of it, with what these
    edges have there. -/
structure RowsFilled (g : Graph) (done : List Edge) (field : Edge → UInt32) (words : Array UInt32) :
    Prop where
  size_eq : words.size = g.numEdges
  row_eq : ∀ v < g.numNodes, (words.toList.drop (g.start v)).take (outCount done v) =
    (done.filter (·.source.toNat == v)).map field

namespace RowsFilled

variable {field : Edge → UInt32} {words words' : Array UInt32}

/-- **One more edge is put into the row of its source,** and into no other one, as long as no vertex
    has more edges than its row has places. -/
theorem set (h : RowsFilled g done field words) (hs : e.source.toNat < g.numNodes)
    (hfits : ∀ v < g.numNodes, outCount (done ++ [e]) v ≤ g.degree v) :
    RowsFilled g (done ++ [e]) field
      (words.setIfInBounds (g.start e.source.toNat + outCount done e.source.toNat) (field e)) := by
  refine ⟨by rw [Array.size_setIfInBounds, h.size_eq], fun v hv => ?_⟩
  have hroom := hfits _ hs
  have hnext := Graph.start_add_degree hs
  rw [outCount_append, outCount_singleton_self] at hroom
  rw [Array.toList_setIfInBounds, outCount_append, List.filter_append, List.map_append]
  by_cases hsource : e.source.toNat = v
  · subst hsource
    have hlast := Graph.start_le (g := g) (v := e.source.toNat + 1) hs
    rw [outCount_singleton_self, take_drop_set_next (by
      rw [Array.length_toList, h.size_eq]; omega), h.row_eq _ hs]
    simp
  · have hcount := hfits v hv
    have hrow := Graph.start_add_degree hv
    rw [outCount_append] at hcount
    rw [outCount_singleton_of_ne hsource, Nat.add_zero, take_drop_set_of_notMem, h.row_eq v hv]
    · simp [hsource]
    · -- The rows of two vertices are apart, whichever comes first.
      rcases Nat.lt_or_gt_of_ne hsource with hlt | hgt
      · have hmono : g.start (e.source.toNat + 1) ≤ g.start v := Graph.start_mono hlt (Nat.le_of_lt hv)
        omega
      · have hmono : g.start (v + 1) ≤ g.start e.source.toNat :=
          Graph.start_mono hgt (Nat.le_of_lt hs)
        omega

/-- **Full rows determine the array,** since they tile it. -/
theorem eq_of_full (h : RowsFilled g edges field words) (h' : RowsFilled g edges field words')
    (hfull : ∀ v < g.numNodes, outCount edges v = g.degree v) : words = words' := by
  have hrows : ∀ {words : Array UInt32}, RowsFilled g edges field words →
      words.toList = (List.range g.numNodes).flatMap fun v =>
        (edges.filter (·.source.toNat == v)).map field := by
    intro words h
    have htile := Graph.flatMap_rows words.toList (Nat.le_refl g.numNodes)
    rw [g.start_numNodes, ← h.size_eq, ← Array.length_toList, List.take_length] at htile
    rw [← htile]
    refine List.flatMap_congr fun v hv => ?_
    rw [← h.row_eq v (List.mem_range.1 hv), hfull v (List.mem_range.1 hv)]
    rfl
  exact Array.toList_inj.1 ((hrows h).trans (hrows h').symm)

/-- The arrays of a graph that is built from edges are filled with them. -/
theorem of_ofEdges (h : Graph.ofEdges n edges = .ok g) :
    RowsFilled g edges Edge.target g.targets ∧ RowsFilled g edges Edge.weight g.weights := by
  obtain ⟨htargets, hweights⟩ := g.map_slots
  have hrow : ∀ v < g.numNodes, (g.slots.drop (g.start v)).take (outCount edges v) =
      (edges.filter (·.source.toNat == v)).map Edge.arc := by
    intro v hv
    rw [← degree_of_ofEdges h (by rwa [← Graph.numNodes_of_ofEdges h]), ← Graph.arcs_of_ofEdges h,
      Graph.arcs_eq_slots]
    rfl
  constructor
  · refine ⟨rfl, fun v hv => ?_⟩
    rw [← htargets, ← List.map_drop, ← List.map_take, hrow v hv, List.map_map]
    rfl
  · refine ⟨g.size_weights, fun v hv => ?_⟩
    rw [← hweights, ← List.map_drop, ← List.map_take, hrow v hv, List.map_map]
    rfl

end RowsFilled

/-- The edges so far are in the rows of their sources, and the next edge of each vertex goes behind
    those it has. -/
structure Filling.Holds (g : Graph) (done : List Edge) (f : Filling) : Prop where
  size_cursors : f.cursors.size = g.numNodes
  cursor_eq : ∀ v < g.numNodes,
    f.cursors[v]? = some (UInt32.ofNat (g.start v + outCount done v))
  targets_filled : RowsFilled g done Edge.target f.targets
  weights_filled : RowsFilled g done Edge.weight f.weights

namespace Filling.Holds

variable {f : Filling}

/-- **One more edge is put in place:** its cursor is within the row of its source. -/
theorem place (h : f.Holds g done) (hs : e.source.toNat < g.numNodes)
    (hfits : ∀ v < g.numNodes, outCount (done ++ [e]) v ≤ g.degree v) :
    ∃ f', f.place e = .ok f' ∧ f'.Holds g (done ++ [e]) := by
  have hslot : g.start e.source.toNat + outCount done e.source.toNat < g.numEdges := by
    have hroom := hfits _ hs
    have hnext := Graph.start_add_degree hs
    have hlast := Graph.start_le (g := g) (v := e.source.toNat + 1) hs
    rw [outCount_append, outCount_singleton_self] at hroom
    omega
  have hword := g.numEdges_le
  have htargets := h.targets_filled.set hs hfits
  have hweights := h.weights_filled.set hs hfits
  have hcursor := h.cursor_eq _ hs
  generalize hplace : g.start e.source.toNat + outCount done e.source.toNat = slot at *
  have hsame : (UInt32.ofNat slot).toNat = slot :=
    UInt32.toNat_ofNat_of_lt' (Text.lt_size_iff.2 (by omega))
  refine ⟨⟨f.cursors.setIfInBounds e.source.toNat (UInt32.ofNat (slot + 1)), _, _⟩, ?_,
    ⟨by rw [Array.size_setIfInBounds, h.size_cursors], fun v hv => ?_, htargets, hweights⟩⟩
  · unfold Filling.place
    rw [wordAt_eq_ok_iff.2 hcursor, ok_bind, hsame,
      setWord_of_lt (by rwa [h.targets_filled.size_eq]), ok_bind,
      setWord_of_lt (by rwa [h.weights_filled.size_eq]), ok_bind,
      show (1 : UInt32) = UInt32.ofNat 1 from rfl, addWords_ofNat (by omega), ok_bind,
      setWord_of_lt (by rwa [h.size_cursors]), ok_bind]
    rfl
  · rw [Array.getElem?_setIfInBounds, h.size_cursors, outCount_append]
    by_cases hsource : e.source.toNat = v
    · subst hsource
      rw [if_pos rfl, if_pos hs, outCount_singleton_self, ← Nat.add_assoc, hplace]
    · rw [if_neg hsource, outCount_singleton_of_ne hsource, Nat.add_zero, h.cursor_eq v hv]

/-- **All edges are put in place,** as long as no vertex has more edges than its row has places. -/
theorem foldlM_place (h : f.Holds g done) (hs : ∀ e ∈ rest, e.source.toNat < g.numNodes)
    (hfits : ∀ v < g.numNodes, outCount (done ++ rest) v ≤ g.degree v) :
    ∃ f', rest.foldlM Filling.place f = .ok f' ∧ f'.Holds g (done ++ rest) := by
  induction rest generalizing done f with
  | nil => exact ⟨f, rfl, by rwa [List.append_nil]⟩
  | cons e rest ih =>
    rw [List.append_cons] at hfits ⊢
    obtain ⟨f₁, hf₁, h₁⟩ := h.place (hs e List.mem_cons_self) fun v hv => by
      have hle := hfits v hv
      rw [outCount_append] at hle
      omega
    obtain ⟨f₂, hf₂, h₂⟩ := ih h₁ (fun d hd => hs d (List.mem_cons_of_mem e hd)) hfits
    exact ⟨f₂, by rw [List.foldlM_cons, hf₁, ok_bind, hf₂], h₂⟩

end Filling.Holds

/-- Before any edge is put in place, the cursors are the offsets. -/
theorem Filling.Holds.unfilled (g : Graph) :
    (⟨g.offsets.extract 0 g.numNodes, Array.replicate g.numEdges 0,
      Array.replicate g.numEdges 0⟩ : Filling).Holds g [] := by
  have hsize := g.size_offsets
  have hrows : ∀ field, RowsFilled g [] field (Array.replicate g.numEdges 0) :=
    fun field => ⟨Array.size_replicate, fun v _ => rfl⟩
  refine ⟨by simp only [Array.size_extract]; omega, fun v hv => ?_, hrows _, hrows _⟩
  rw [Array.getElem?_extract, if_pos (by omega), Nat.zero_add, g.getElem?_offsets (Nat.le_of_lt hv)]
  rfl

/-! ### The filled arrays -/

/-- **Counting gives the graph.** What is filled by counting is the graph of the edges as it is
    kept. -/
theorem ofEdges_layout (hg : Graph.ofEdges n edges = .ok g) : ofEdges n edges = .ok g.layout := by
  obtain ⟨hn, hm, hstray⟩ := Graph.exists_ofEdges_iff.1 ⟨g, hg⟩
  obtain rfl := Graph.numNodes_of_ofEdges hg
  have hfull : ∀ v < g.numNodes, outCount edges v = g.degree v :=
    fun v hv => (degree_of_ofEdges hg hv).symm
  have hdegrees : counts g.numNodes edges = g.layout.degrees := by
    refine congrArg List.toArray (List.map_congr_left fun v hv => ?_)
    rw [hfull v (List.mem_range.1 hv)]
  have hoffsets : (g.offsets.toList.take (g.numNodes + 1)).toArray = g.offsets := by
    rw [List.take_of_length_le, Array.toArray_toList]
    rw [Array.length_toList, g.size_offsets]
  have hsources : ∀ e ∈ edges, e.source.toNat < g.numNodes :=
    fun e he => Graph.source_lt_of_firstStray? hstray he
  obtain ⟨filled, hfilled, hholds⟩ := (Filling.Holds.unfilled g).foldlM_place hsources
    fun v hv => Nat.le_of_eq (hfull v hv)
  obtain ⟨htargets, hweights⟩ := RowsFilled.of_ofEdges hg
  unfold ofEdges
  rw [if_neg (Nat.not_lt.2 hn), if_neg (Nat.not_lt.2 hm), ← counts_nil,
    foldlM_countEdge (by simpa using hm), List.nil_append, hstray, hdegrees]
  simp only [ok_bind]
  rw [show g.layout.degrees.toList =
    (List.range g.numNodes).map fun v => UInt32.ofNat (g.degree v) from rfl,
    foldlM_pushOffset (Nat.le_refl _), ok_bind, hoffsets, slice_of_le (Nat.zero_le _) (by
      rw [g.size_offsets]; exact Nat.le_succ _), ok_bind, ← Graph.numEdges_of_ofEdges hg, hfilled,
    ok_bind, hholds.targets_filled.eq_of_full htargets hfull,
    hholds.weights_filled.eq_of_full hweights hfull]
  rfl

/-- If there is no graph of the edges, the same fault is reported by counting. -/
theorem ofEdges_eq_kept (n : Nat) (edges : List Edge) :
    ofEdges n edges = kept (Graph.ofEdges n edges) := by
  by_cases hn : maxWord < n
  · rw [ofEdges, if_pos hn, Graph.ofEdges, if_pos hn]
    rfl
  by_cases hm : maxWord < edges.length
  · rw [ofEdges, if_neg hn, if_pos hm, Graph.ofEdges, if_neg hn, dif_pos hm]
    rfl
  cases hstray : Graph.firstStray? n edges with
  | some v =>
    rw [ofEdges, if_neg hn, if_neg hm, ← counts_nil, foldlM_countEdge (by simpa using hm), hstray,
      Graph.ofEdges_eq_error_of_stray (Nat.not_lt.1 hn) (Nat.not_lt.1 hm) hstray]
    rfl
  | none =>
    obtain ⟨g, hg⟩ := Graph.exists_ofEdges_iff.2 ⟨Nat.not_lt.1 hn, Nat.not_lt.1 hm, hstray⟩
    rw [ofEdges_layout hg, hg]
    rfl

end Layout

/-! ### Whole runs -/

/-- The number is the first end of the edges that is none of the vertices `0, …, n - 1`, in the order of
    the edges and the source of an edge before its target. -/
inductive FirstStray (n : Nat) : List Edge → Nat → Prop
  | source {e : Edge} {rest : List Edge} (h : n ≤ e.source.toNat) :
      FirstStray n (e :: rest) e.source.toNat
  | target {e : Edge} {rest : List Edge} (hs : e.source.toNat < n) (h : n ≤ e.target.toNat) :
      FirstStray n (e :: rest) e.target.toNat
  | later {e : Edge} {rest : List Edge} {v : Nat} (hs : e.source.toNat < n)
      (ht : e.target.toNat < n) (h : FirstStray n rest v) : FirstStray n (e :: rest) v

namespace Graph

variable {n v : Nat} {edges : List Edge} {error : GraphError}

theorem firstStray?_eq_some_iff : firstStray? n edges = some v ↔ FirstStray n edges v := by
  induction edges with
  | nil => exact iff_of_false nofun nofun
  | cons e rest ih =>
    rw [firstStray?_cons]
    by_cases hs : n ≤ e.source.toNat
    · rw [if_pos hs, Option.some.injEq]
      constructor
      · rintro rfl
        exact .source hs
      · rintro (_ | ⟨hs', _⟩ | ⟨hs', _, _⟩)
        · rfl
        · omega
        · omega
    · rw [if_neg hs]
      by_cases ht : n ≤ e.target.toNat
      · rw [if_pos ht, Option.some.injEq]
        constructor
        · rintro rfl
          exact .target (Nat.not_le.1 hs) ht
        · rintro (hs' | _ | ⟨_, ht', _⟩)
          · exact absurd hs' hs
          · rfl
          · omega
      · rw [if_neg ht, ih]
        constructor
        · exact .later (Nat.not_le.1 hs) (Nat.not_le.1 ht)
        · rintro (hs' | ⟨_, ht'⟩ | ⟨_, _, h⟩)
          · exact absurd hs' hs
          · exact absurd ht' ht
          · exact h

/-- **The first fault is reported:** of the number of vertices, of the number of edges, and last of
    their ends. -/
theorem ofEdges_eq_error_iff :
    ofEdges n edges = .error error ↔
      (maxWord < n ∧ error = .tooLarge n) ∨
      (n ≤ maxWord ∧ maxWord < edges.length ∧ error = .tooLarge edges.length) ∨
      (n ≤ maxWord ∧ edges.length ≤ maxWord ∧
        ∃ v, FirstStray n edges v ∧ error = .vertexOutOfBounds v n) := by
  by_cases hn : maxWord < n
  · have hlarge : ofEdges n edges = .error (.tooLarge n) := by rw [ofEdges, if_pos hn]
    rw [hlarge, Except.error.injEq]
    constructor
    · rintro rfl
      exact .inl ⟨hn, rfl⟩
    · rintro (⟨_, rfl⟩ | ⟨hn', _⟩ | ⟨hn', _⟩)
      · rfl
      · omega
      · omega
  by_cases hm : maxWord < edges.length
  · have hlarge : ofEdges n edges = .error (.tooLarge edges.length) := by
      rw [ofEdges, if_neg hn, dif_pos hm]
    rw [hlarge, Except.error.injEq]
    constructor
    · rintro rfl
      exact .inr (.inl ⟨Nat.not_lt.1 hn, hm, rfl⟩)
    · rintro (⟨hn', _⟩ | ⟨_, _, rfl⟩ | ⟨_, hm', _⟩)
      · omega
      · rfl
      · omega
  cases hstray : firstStray? n edges with
  | some v =>
    rw [ofEdges_eq_error_of_stray (Nat.not_lt.1 hn) (Nat.not_lt.1 hm) hstray, Except.error.injEq]
    constructor
    · rintro rfl
      exact .inr (.inr ⟨Nat.not_lt.1 hn, Nat.not_lt.1 hm, v, firstStray?_eq_some_iff.1 hstray, rfl⟩)
    · rintro (⟨hn', _⟩ | ⟨_, hm', _⟩ | ⟨_, _, w, hw, rfl⟩)
      · omega
      · omega
      · rw [← firstStray?_eq_some_iff, hstray, Option.some.injEq] at hw
        rw [hw]
  | none =>
    obtain ⟨g, hg⟩ := exists_ofEdges_iff.2 ⟨Nat.not_lt.1 hn, Nat.not_lt.1 hm, hstray⟩
    rw [hg]
    refine iff_of_false nofun ?_
    rintro (⟨hn', _⟩ | ⟨_, hm', _⟩ | ⟨_, _, w, hw, _⟩)
    · omega
    · omega
    · rw [← firstStray?_eq_some_iff, hstray] at hw
      cases hw

end Graph

/-- The arrays hold these edges: each vertex has the edges out of it, in the order of the list. -/
structure Layout.HoldsEdges (l : Layout) (n : Nat) (edges : List Edge) : Prop where
  numNodes_eq : l.numNodes = n
  first_offset : l.offsets[0]? = some 0
  sorted_offsets : l.offsets.toList.Pairwise (· ≤ ·)
  last_offset : l.offsets.back?.map UInt32.toNat = some edges.length
  size_targets : l.targets.size = edges.length
  size_weights : l.weights.size = edges.length
  target_lt : ∀ t ∈ l.targets, t.toNat < n
  size_degrees : l.degrees.size = n
  /-- Each row lies between two offsets, of which the out-degree is the difference. -/
  rowBetween : ∀ v < n, ∃ first last, l.RowBetween v first last
  rowOf_eq : ∀ v < n, l.rowOf v =
    .ok (((edges.filter (·.source.toNat == v)).map Edge.target).toArray,
      ((edges.filter (·.source.toNat == v)).map Edge.weight).toArray)

namespace Layout

variable {n : Nat} {edges : List Edge} {g : Graph} {l : Layout} {stop : Stop}

/-- A graph that is built from edges is kept in arrays that hold them. -/
theorem holdsEdges_layout (h : Graph.ofEdges n edges = .ok g) : g.layout.HoldsEdges n edges := by
  obtain rfl := Graph.numNodes_of_ofEdges h
  have hedges : g.targets.size = edges.length := Graph.numEdges_of_ofEdges h
  exact {
    numNodes_eq := rfl
    first_offset := g.first_offset
    sorted_offsets := g.sorted_offsets
    last_offset := hedges ▸ g.last_offset
    size_targets := hedges
    size_weights := g.size_weights.trans hedges
    target_lt := fun t ht => by
      have hlt := g.target_lt t ht
      have hsize := g.size_offsets
      omega
    size_degrees := by simp [Graph.layout]
    rowBetween := fun v hv => ⟨_, _, Graph.rowBetween hv⟩
    rowOf_eq := fun v hv => by
      rw [Graph.rowOf_layout hv, Graph.arcs_of_ofEdges h, List.map_map, List.map_map]
      rfl }

/-- Nothing but a fault of the input is reported, and of these the first. -/
theorem ofEdges_eq_error_iff :
    ofEdges n edges = .error stop ↔
      (maxWord < n ∧ stop = .refused (.tooLarge n)) ∨
      (n ≤ maxWord ∧ maxWord < edges.length ∧ stop = .refused (.tooLarge edges.length)) ∨
      (n ≤ maxWord ∧ edges.length ≤ maxWord ∧
        ∃ v, FirstStray n edges v ∧ stop = .refused (.vertexOutOfBounds v n)) := by
  rw [ofEdges_eq_kept, kept_eq_error_iff]
  simp only [Graph.ofEdges_eq_error_iff]
  constructor
  · rintro ⟨_, ⟨hn, rfl⟩ | ⟨hn, hm, rfl⟩ | ⟨hn, hm, v, hv, rfl⟩, rfl⟩
    · exact .inl ⟨hn, rfl⟩
    · exact .inr (.inl ⟨hn, hm, rfl⟩)
    · exact .inr (.inr ⟨hn, hm, v, hv, rfl⟩)
  · rintro (⟨hn, rfl⟩ | ⟨hn, hm, rfl⟩ | ⟨hn, hm, v, hv, rfl⟩)
    · exact ⟨_, .inl ⟨hn, rfl⟩, rfl⟩
    · exact ⟨_, .inr (.inl ⟨hn, hm, rfl⟩), rfl⟩
    · exact ⟨_, .inr (.inr ⟨hn, hm, v, hv, rfl⟩), rfl⟩

/-- **Building by counting.** Counting the edges of each source, adding up the counts and putting each
    edge where its source has its next one gives the graph of the edges as it is kept, and no step of it
    gets stuck. It succeeds if the vertices and the edges can be counted in a word and all ends are
    vertices, and otherwise reports the first of these faults. The arrays then hold the edges, those of
    each vertex in the order of the list. -/
theorem ofEdges_by_counting (n : Nat) (edges : List Edge) :
    ofEdges n edges = kept (Graph.ofEdges n edges) ∧
    ((∃ l, ofEdges n edges = .ok l) ↔ n ≤ maxWord ∧ edges.length ≤ maxWord ∧
      ∀ e ∈ edges, e.source.toNat < n ∧ e.target.toNat < n) ∧
    (∀ stop, ofEdges n edges = .error stop ↔
      (maxWord < n ∧ stop = .refused (.tooLarge n)) ∨
      (n ≤ maxWord ∧ maxWord < edges.length ∧ stop = .refused (.tooLarge edges.length)) ∨
      (n ≤ maxWord ∧ edges.length ≤ maxWord ∧
        ∃ v, FirstStray n edges v ∧ stop = .refused (.vertexOutOfBounds v n))) ∧
    ∀ l, ofEdges n edges = .ok l → l.HoldsEdges n edges := by
  have hkept := ofEdges_eq_kept n edges
  refine ⟨hkept, ?_, fun stop => ofEdges_eq_error_iff, fun l hl => ?_⟩
  · rw [← Graph.firstStray?_eq_none_iff, ← Graph.exists_ofEdges_iff, hkept]
    simp only [kept_eq_ok_iff]
    constructor
    · rintro ⟨_, g, hg, _⟩
      exact ⟨g, hg⟩
    · rintro ⟨g, hg⟩
      exact ⟨g.layout, g, hg, rfl⟩
  · rw [hkept, kept_eq_ok_iff] at hl
    obtain ⟨g, hg, rfl⟩ := hl
    exact holdsEdges_layout hg

/-- The general theorem at edges in no order, of which some sources have none, and at edges with a
    stray end behind a good edge. -/
theorem ofEdges_by_counting_gaps :
    ofEdges 5 [⟨3, 0, 7⟩, ⟨1, 2, 3⟩, ⟨3, 2, 1⟩, ⟨1, 1, 4⟩] = .ok Graph.gaps.layout ∧
      Graph.gaps.layout.HoldsEdges 5 [⟨3, 0, 7⟩, ⟨1, 2, 3⟩, ⟨3, 2, 1⟩, ⟨1, 1, 4⟩] ∧
      Graph.gaps.layout.degrees = #[0, 2, 0, 2, 0] ∧
      Graph.gaps.layout.rowOf 3 = .ok (#[0, 2], #[7, 1]) ∧
      FirstStray 3 [⟨2, 0, 1⟩, ⟨1, 3, 1⟩, ⟨4, 0, 1⟩] 3 ∧
      ofEdges 3 [⟨2, 0, 1⟩, ⟨1, 3, 1⟩, ⟨4, 0, 1⟩] = .error (.refused (.vertexOutOfBounds 3 3)) := by
  obtain ⟨hkept, _, _, hholds⟩ :=
    ofEdges_by_counting 5 [⟨3, 0, 7⟩, ⟨1, 2, 3⟩, ⟨3, 2, 1⟩, ⟨1, 1, 4⟩]
  obtain ⟨_, _, herror, _⟩ := ofEdges_by_counting 3 [⟨2, 0, 1⟩, ⟨1, 3, 1⟩, ⟨4, 0, 1⟩]
  have hbuilt : ofEdges 5 [⟨3, 0, 7⟩, ⟨1, 2, 3⟩, ⟨3, 2, 1⟩, ⟨1, 1, 4⟩] = .ok Graph.gaps.layout := by
    rw [hkept]
    decide +kernel
  have hstray : FirstStray 3 [⟨2, 0, 1⟩, ⟨1, 3, 1⟩, ⟨4, 0, 1⟩] 3 :=
    .later (by decide) (by decide) (.target (by decide) (by decide))
  refine ⟨hbuilt, hholds _ hbuilt, by decide +kernel, ?_, hstray, ?_⟩
  · exact (hholds _ hbuilt).rowOf_eq 3 (by decide)
  · exact (herror _).2 (.inr (.inr ⟨by decide, by decide, 3, hstray, rfl⟩))

end Layout

end SparseGraph
