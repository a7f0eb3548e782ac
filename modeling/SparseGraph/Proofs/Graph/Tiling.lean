import SparseGraph.Proofs.Graph.Parts
import SparseGraph.Proofs.Graph.Rows

namespace SparseGraph.Graph

/-!
# Rows tile the arrays

The arcs of vertex 0, then those of vertex 1, and so on are all slots of the arrays, each once. So a
graph is known by its arcs, its edges are as many as it has slots, and they build the graph again.

* `start_mono`, `start_numNodes` — the rows begin in order and end with the arrays;
* `flatMap_rows`, `flatMap_arcs` — the rows of the first vertices are the first entries, and their arcs
  the first slots;
* `ext_arcs` — graphs with the same vertices and arcs are the same;
* `length_edges`, `filter_edges` — the edges, counted and by their source;
* `nodesNeeded_le_iff` — how many vertices edges need;
* `exists_ofEdges_iff`, `exists_ofEdgeList_iff` — which edges build a graph;
* `ofEdges_edges` — those of a graph build it again.
-/

variable {g h : Graph} {u v : Nat}

/-! ### Where rows begin -/

theorem start_eq_getElem (hv : v < g.offsets.size) : g.start v = g.offsets[v].toNat := by
  unfold start
  rw [Array.getD_eq_getD_getElem?, Array.getElem?_eq_getElem hv, Option.getD_some]

/-- The offset of a vertex, and the one behind the last vertex, is where its row begins. -/
theorem getElem?_offsets (g : Graph) (hv : v ≤ g.numNodes) :
    g.offsets[v]? = some (UInt32.ofNat (g.start v)) := by
  have hsize := g.size_offsets
  rw [start_eq_getElem (by omega), UInt32.ofNat_toNat, Array.getElem?_eq_getElem]

theorem start_zero (g : Graph) : g.start 0 = 0 := by
  unfold start
  rw [Array.getD_eq_getD_getElem?, g.first_offset]
  rfl

/-- The last row ends with the arrays. -/
theorem start_numNodes (g : Graph) : g.start g.numNodes = g.numEdges := by
  obtain ⟨last, hback, hlast⟩ := g.exists_last_offset
  unfold start
  rw [Array.back?_eq_getElem?] at hback
  rw [Array.getD_eq_getD_getElem?, numNodes, hback, ← hlast]
  rfl

/-- **Rows begin in order.** -/
theorem start_mono (huv : u ≤ v) (hv : v ≤ g.numNodes) : g.start u ≤ g.start v := by
  rcases Nat.eq_or_lt_of_le huv with rfl | hlt
  · exact Nat.le_refl _
  · have hsize := g.size_offsets
    rw [start_eq_getElem (by omega), start_eq_getElem (by omega)]
    have hsorted := List.pairwise_iff_getElem.1 g.sorted_offsets u v (by simp; omega) (by simp; omega)
      hlt
    exact UInt32.le_iff_toNat_le.1 hsorted

theorem start_le (hv : v ≤ g.numNodes) : g.start v ≤ g.numEdges := by
  rw [← g.start_numNodes]
  exact start_mono hv (Nat.le_refl _)

/-- A row ends where the next one begins. -/
theorem start_add_degree (hv : v < g.numNodes) : g.start v + g.degree v = g.start (v + 1) :=
  Nat.add_sub_cancel' (start_mono (Nat.le_succ v) hv)

/-! ### Slots -/

/-- The arcs of all vertices as they stand in the arrays. -/
def slots (g : Graph) : List Arc :=
  List.zipWith Arc.mk g.targets.toList g.weights.toList

theorem length_slots (g : Graph) : g.slots.length = g.numEdges := by
  unfold slots numEdges
  rw [List.length_zipWith, Array.length_toList, Array.length_toList, g.size_weights, Nat.min_self]

/-- Targets and weights of the same number, put together and taken apart again. -/
private theorem map_zipWith_arc {targets weights : List UInt32}
    (hlength : targets.length = weights.length) :
    (List.zipWith Arc.mk targets weights).map Arc.target = targets ∧
      (List.zipWith Arc.mk targets weights).map Arc.weight = weights := by
  induction targets generalizing weights with
  | nil =>
    cases weights with
    | nil => exact ⟨rfl, rfl⟩
    | cons w weights => cases hlength
  | cons t targets ih =>
    cases weights with
    | nil => cases hlength
    | cons w weights =>
      obtain ⟨htargets, hweights⟩ := ih (Nat.succ.inj hlength)
      rw [List.zipWith_cons_cons, List.map_cons, List.map_cons, htargets, hweights]
      exact ⟨rfl, rfl⟩

/-- The targets and the weights are those of the slots. -/
theorem map_slots (g : Graph) :
    g.slots.map Arc.target = g.targets.toList ∧ g.slots.map Arc.weight = g.weights.toList := by
  apply map_zipWith_arc
  rw [Array.length_toList, Array.length_toList, g.size_weights]

/-- The arcs of a vertex are the slots of its row. -/
theorem arcs_eq_slots (g : Graph) (v : Nat) :
    g.arcs v = (g.slots.drop (g.start v)).take (g.start (v + 1) - g.start v) := by
  rw [arcs_eq_zipWith, Array.toList_extract, Array.toList_extract, List.extract_eq_take_drop,
    List.extract_eq_take_drop, slots, List.drop_zipWith, List.take_zipWith]

/-- A vertex has as many arcs as its row has slots. -/
theorem length_arcs (hv : v < g.numNodes) : (g.arcs v).length = g.degree v := by
  have hend := start_le (g := g) (v := v + 1) hv
  rw [arcs_eq_slots, List.length_take, List.length_drop, length_slots, degree]
  omega

/-- **Rows tile the arrays:** in a list as long as these, the rows of the first vertices are its first
    entries. -/
theorem flatMap_rows {α : Type} (l : List α) (hv : v ≤ g.numNodes) :
    (List.range v).flatMap (fun u => (l.drop (g.start u)).take (g.start (u + 1) - g.start u)) =
      l.take (g.start v) := by
  induction v with
  | zero => rw [start_zero, List.take_zero, List.range_zero, List.flatMap_nil]
  | succ v ih =>
    have hmono : g.start v ≤ g.start (v + 1) := start_mono (Nat.le_succ v) hv
    rw [List.range_succ, List.flatMap_append, ih (Nat.le_of_succ_le hv), List.flatMap_singleton,
      ← List.take_add, Nat.add_sub_cancel' hmono]

/-- The arcs of the first vertices are the first slots. -/
theorem flatMap_arcs (hv : v ≤ g.numNodes) :
    (List.range v).flatMap g.arcs = g.slots.take (g.start v) := by
  rw [← flatMap_rows g.slots hv]
  exact List.flatMap_congr fun u _ => arcs_eq_slots g u

theorem flatMap_arcs_numNodes (g : Graph) : (List.range g.numNodes).flatMap g.arcs = g.slots := by
  rw [flatMap_arcs (Nat.le_refl _), start_numNodes, ← length_slots, List.take_length]

/-- The weights are those of the arcs. -/
theorem mem_weights_iff {w : UInt32} :
    w ∈ g.weights ↔ ∃ v < g.numNodes, ∃ a ∈ g.arcs v, a.weight = w := by
  rw [← Array.mem_toList_iff, ← (map_slots g).2, ← flatMap_arcs_numNodes]
  simp only [List.mem_map, List.mem_flatMap, List.mem_range]
  constructor
  · rintro ⟨a, ⟨v, hv, ha⟩, rfl⟩
    exact ⟨v, hv, a, ha, rfl⟩
  · rintro ⟨v, hv, a, ha, rfl⟩
    exact ⟨a, ⟨v, hv, ha⟩, rfl⟩

/-- **A graph is known by its arcs.** -/
theorem ext_arcs (hn : g.numNodes = h.numNodes) (harcs : ∀ v, g.arcs v = h.arcs v) : g = h := by
  have hfun : g.arcs = h.arcs := funext harcs
  have hslots : g.slots = h.slots := by
    rw [← flatMap_arcs_numNodes, ← flatMap_arcs_numNodes, hn, hfun]
  refine ext_arrays ?_ ?_ ?_
  · -- An offset counts the arcs of the vertices before it.
    have hstart : ∀ v ≤ g.numNodes, g.start v = h.start v := by
      intro v hv
      have hg := congrArg List.length (flatMap_arcs hv)
      have hh := congrArg List.length (flatMap_arcs (g := h) (hn ▸ hv))
      rw [List.length_take, length_slots, Nat.min_eq_left (start_le hv), hfun] at hg
      rw [List.length_take, length_slots, Nat.min_eq_left (start_le (hn ▸ hv))] at hh
      rw [← hg, hh]
    have hgsize := g.size_offsets
    have hhsize := h.size_offsets
    apply Array.ext
    · omega
    · intro i hi hi'
      have heq := hstart i (by omega)
      rw [start_eq_getElem hi, start_eq_getElem hi'] at heq
      exact UInt32.toNat_inj.1 heq
  · apply Array.toList_inj.1
    rw [← (map_slots g).1, ← (map_slots h).1, hslots]
  · apply Array.toList_inj.1
    rw [← (map_slots g).2, ← (map_slots h).2, hslots]

/-! ### Edges -/

/-- There are as many edges as slots. -/
theorem length_edges (hn : g.numNodes ≤ Text.maxWord) : g.edges.length = g.numEdges := by
  have hslots := congrArg List.length g.flatMap_arcs_numNodes
  rw [length_slots, List.length_flatMap] at hslots
  rw [edges_eq hn]
  simp only [List.length_flatMap, List.length_map]
  exact hslots

/-- The edges out of a vertex, those with a given source among them. -/
theorem filter_map_edgeFrom (hn : g.numNodes ≤ Text.maxWord) (hu : u < g.numNodes) (v : Nat) :
    ((g.arcs u).map (Arc.edgeFrom (UInt32.ofNat u))).filter (·.source.toNat == v) =
      if u = v then (g.arcs u).map (Arc.edgeFrom (UInt32.ofNat u)) else [] := by
  have hsource : (UInt32.ofNat u).toNat = u := toNat_ofNat_of_lt hn hu
  rw [List.filter_map]
  simp only [Function.comp_def, Arc.source_edgeFrom, hsource]
  by_cases huv : u = v
  · have hkeep : (g.arcs u).filter (fun _ => u == v) = g.arcs u :=
      List.filter_eq_self.2 fun _ _ => beq_iff_eq.2 huv
    rw [hkeep, if_pos huv]
  · have hdrop : (g.arcs u).filter (fun _ => u == v) = [] :=
      List.filter_eq_nil_iff.2 fun _ _ h => huv (beq_iff_eq.1 h)
    rw [hdrop, if_neg huv]
    rfl

/-- **The edges with a given source** are the arcs of that vertex, in order. -/
theorem filter_edges (hn : g.numNodes ≤ Text.maxWord) (v : Nat) :
    g.edges.filter (·.source.toNat == v) = (g.arcs v).map (Arc.edgeFrom (UInt32.ofNat v)) := by
  -- Of the edges out of the first vertices, those out of `v` are there once `v` is among these.
  have main : ∀ k ≤ g.numNodes,
      ((List.range k).flatMap fun u => (g.arcs u).map (Arc.edgeFrom (UInt32.ofNat u))).filter
          (·.source.toNat == v) =
        if v < k then (g.arcs v).map (Arc.edgeFrom (UInt32.ofNat v)) else [] := by
    intro k hk
    induction k with
    | zero => rfl
    | succ k ih =>
      rw [List.range_succ, List.flatMap_append, List.filter_append, ih (Nat.le_of_succ_le hk),
        List.flatMap_singleton, filter_map_edgeFrom hn hk]
      by_cases hkv : k = v
      · subst hkv
        simp
      · have hlt : v < k + 1 ↔ v < k := by omega
        simp only [hkv, hlt, if_false, List.append_nil]
  rw [edges_eq hn, main g.numNodes (Nat.le_refl _)]
  split
  · rfl
  next hv => rw [arcs_of_le (Nat.le_of_not_lt hv), List.map_nil]

/-- Both ends of an edge are vertices. -/
theorem ends_lt_of_mem_edges (hn : g.numNodes ≤ Text.maxWord) {e : Edge} (he : e ∈ g.edges) :
    e.source.toNat < g.numNodes ∧ e.target.toNat < g.numNodes := by
  obtain ⟨v, hv, a, ha, rfl⟩ := (mem_edges_iff hn).1 he
  constructor
  · rw [Arc.source_edgeFrom, toNat_ofNat_of_lt hn hv]
    exact hv
  · exact target_lt_of_mem_arcs ha

/-! ### Building a graph again -/

/-- **Which edge lists are accepted:** those that fit into 32 bits and have no ends but vertices. -/
theorem exists_ofEdges_iff {n : Nat} {edges : List Edge} :
    (∃ g, ofEdges n edges = .ok g) ↔
      n ≤ Text.maxWord ∧ edges.length ≤ Text.maxWord ∧ firstStray? n edges = none := by
  unfold ofEdges
  constructor
  · rintro ⟨g, hg⟩
    split at hg
    · cases hg
    next hn =>
      split at hg
      · cases hg
      next hm =>
        split at hg
        · cases hg
        next hstray => exact ⟨Nat.le_of_not_lt hn, Nat.le_of_not_lt hm, hstray⟩
  · rintro ⟨hn, hm, hstray⟩
    rw [if_neg (Nat.not_lt.2 hn), dif_neg (Nat.not_lt.2 hm)]
    split
    next heq => rw [hstray] at heq; cases heq
    next => exact ⟨_, rfl⟩

/-- An edge list needs at least the vertices at the ends of its edges, and no more. -/
theorem nodesNeeded_le_iff {n : Nat} {edges : List Edge} :
    nodesNeeded edges ≤ n ↔ ∀ e ∈ edges, e.source.toNat < n ∧ e.target.toNat < n := by
  -- The fold keeps the greatest number so far, so the induction is over any number to begin with.
  have main : ∀ k, edges.foldl (fun n e => max n (max e.source.toNat e.target.toNat + 1)) k ≤ n ↔
      k ≤ n ∧ ∀ e ∈ edges, e.source.toNat < n ∧ e.target.toNat < n := by
    induction edges with
    | nil => intro k; simp
    | cons e edges ih =>
      intro k
      rw [List.foldl_cons, ih]
      simp only [List.mem_cons, forall_eq_or_imp, Nat.max_le, Nat.add_one_le_iff, Nat.max_lt,
        and_assoc]
  unfold nodesNeeded
  rw [main 0]
  simp

/-- No end is a stray one among as many vertices as the edges need. -/
theorem firstStray?_eq_none_iff_needed {n : Nat} {edges : List Edge} :
    firstStray? n edges = none ↔ nodesNeeded edges ≤ n := by
  rw [firstStray?_eq_none_iff, nodesNeeded_le_iff]

/-- **Which edge lists tell their vertices:** those that fit into 32 bits and need no more vertices than
    words can count. -/
theorem exists_ofEdgeList_iff {edges : List Edge} :
    (∃ g, ofEdgeList edges = .ok g) ↔
      nodesNeeded edges ≤ Text.maxWord ∧ edges.length ≤ Text.maxWord := by
  unfold ofEdgeList
  rw [exists_ofEdges_iff]
  exact and_congr_right fun _ => and_iff_left (firstStray?_eq_none_iff_needed.2 (Nat.le_refl _))

/-- Words can count the vertices that edges need unless an end is the greatest word. -/
theorem nodesNeeded_le_maxWord_iff {edges : List Edge} :
    nodesNeeded edges ≤ Text.maxWord ↔
      ∀ e ∈ edges, e.source.toNat ≠ Text.maxWord ∧ e.target.toNat ≠ Text.maxWord := by
  have hlt (w : UInt32) : w.toNat < Text.maxWord ↔ w.toNat ≠ Text.maxWord := by
    have hw := w.toNat_lt
    unfold Text.maxWord
    omega
  simp only [nodesNeeded_le_iff, hlt]

/-- Edges never need more than one vertex that words cannot count. -/
theorem nodesNeeded_le (edges : List Edge) : nodesNeeded edges ≤ Text.maxWord + 1 :=
  nodesNeeded_le_iff.2 fun e _ => ⟨e.source.toNat_lt, e.target.toNat_lt⟩

/-- An end that is the greatest word makes the vertices too many. -/
theorem ofEdgeList_eq_error_of_greatest {edges : List Edge}
    (h : Text.maxWord < nodesNeeded edges) :
    ofEdgeList edges = .error (.tooLarge (Text.maxWord + 1)) := by
  have hneeded : nodesNeeded edges = Text.maxWord + 1 := Nat.le_antisymm (nodesNeeded_le edges) h
  unfold ofEdgeList ofEdges
  rw [if_pos h, hneeded]

/-- An end that is no vertex is reported if nothing else is wrong. -/
theorem ofEdges_eq_error_of_stray {n : Nat} {edges : List Edge} (hn : n ≤ Text.maxWord)
    (hm : edges.length ≤ Text.maxWord) (hstray : firstStray? n edges = some v) :
    ofEdges n edges = .error (.vertexOutOfBounds v n) := by
  unfold ofEdges
  rw [if_neg (Nat.not_lt.2 hn), dif_neg (Nat.not_lt.2 hm)]
  split
  next heq => rw [hstray, Option.some.injEq] at heq; rw [heq]
  next heq => rw [hstray] at heq; cases heq

/-- **The edges of a graph build it again.** -/
theorem ofEdges_edges (hn : g.numNodes ≤ Text.maxWord) : ofEdges g.numNodes g.edges = .ok g := by
  have hm : g.edges.length ≤ Text.maxWord := by
    rw [length_edges hn]
    exact g.numEdges_le
  have hstray : firstStray? g.numNodes g.edges = none :=
    firstStray?_eq_none_iff.2 fun e he => ends_lt_of_mem_edges hn he
  obtain ⟨h, hh⟩ := exists_ofEdges_iff.2 ⟨hn, hm, hstray⟩
  have heq : h = g := by
    refine ext_arcs (numNodes_of_ofEdges hh) ?_
    intro v
    rw [arcs_of_ofEdges hh, filter_edges hn, List.map_map]
    exact List.map_id _
  rw [hh, heq]

end SparseGraph.Graph
