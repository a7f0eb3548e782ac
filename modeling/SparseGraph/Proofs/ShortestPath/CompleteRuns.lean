import Mathlib.Data.List.Flatten
import SparseGraph.Proofs.Graph.Tiling
import SparseGraph.Proofs.ShortestPath.WholeRuns

namespace SparseGraph.ShortestPath

/-!
# Runs to the end

A search from a source that goes on until nothing waits takes its source and all that is produced, in
whatever order. What follows from this alone holds of every such search: no item is taken twice, and each
vertex that is reached is expanded at its distance. If items are expanded at the final distances of their
vertices only, then no vertex is expanded twice, and there are no more items than edges besides the source.

* `drainFrom`, `visitsFrom`, `expandedItems` — the items of a run as one drain from the start, its visits,
  and the items that are not stale;
* `size_produced_le_arcs` — what a drain produces are targets of the arcs of expanded vertices;
* `Exhausts` — items that a run takes until nothing waits;
* `Exhausts.nodup`, `Exhausts.mem_expandedItems` — every item once, every vertex that is reached;
* `Exhausts.filter_expandedItems`, `Exhausts.nodup_vertices`, `Exhausts.length_le` — runs that expand at
  final distances only.
-/

variable {g : Graph} {source v : Nat} {items : List Item} {i : Item}

/-! ### Items from the start on -/

/-- Items are drained from the start on. -/
def drainFrom (g : Graph) (source : Nat) (items : List Item) : Sweep :=
  drain g (initialDistances g.numNodes source) items

/-- The visits of items from the start on. -/
def visitsFrom (g : Graph) (source : Nat) (items : List Item) : List (Item × Nat) :=
  recorded g (initialDistances g.numNodes source) items

/-- The items that are not stale when they are visited, so that their vertices are expanded. -/
def expandedItems (g : Graph) (source : Nat) (items : List Item) : List Item :=
  ((visitsFrom g source items).filter fun i => !isStale i).map Prod.fst

theorem mem_expandedItems_iff :
    i ∈ expandedItems g source items ↔ ∃ d, (i, d) ∈ visitsFrom g source items ∧ i.distance ≤ d := by
  simp only [expandedItems, List.mem_map, List.mem_filter, Bool.not_eq_true', isStale_eq_false_iff,
    Prod.exists, exists_and_right, exists_eq_right]

theorem map_fst_visitsFrom (g : Graph) (source : Nat) (items : List Item) :
    (visitsFrom g source items).map Prod.fst = items :=
  map_fst_recorded g _ items

/-- Every item is visited. -/
theorem exists_mem_visitsFrom (hi : i ∈ items) : ∃ d, (i, d) ∈ visitsFrom g source items := by
  rw [← map_fst_visitsFrom g source items] at hi
  obtain ⟨⟨_, d⟩, hvisit, rfl⟩ := List.mem_map.1 hi
  exact ⟨d, hvisit⟩

theorem expandedItems_sublist (g : Graph) (source : Nat) (items : List Item) :
    (expandedItems g source items).Sublist items := by
  conv_rhs => rw [← map_fst_visitsFrom g source items]
  exact List.filter_sublist.map Prod.fst

theorem lowering_drainFrom (g : Graph) (source : Nat) (items : List Item) :
    Lowering (initialDistances g.numNodes source) (drainFrom g source items).distances
      (drainFrom g source items).produced.toList :=
  (visits_drain g _ items).lowering

/-! ### How much is produced -/

theorem Sweep.size_produced_relaxArcs_le (s : Sweep) (distance : Nat) (arcs : List Arc) :
    (s.relaxArcs distance arcs).produced.size ≤ s.produced.size + arcs.length := by
  induction arcs generalizing s with
  | nil => exact Nat.le_refl _
  | cons a arcs ih =>
    have hrelax : (s.relax a.target.toNat (through distance a.weight.toNat)).produced.size ≤
        s.produced.size + 1 := by
      unfold relax
      split
      · rw [Array.size_push]
      · exact Nat.le_succ _
    refine Nat.le_trans (ih (s.relax a.target.toNat (through distance a.weight.toNat))) ?_
    rw [List.length_cons]
    omega

/-- **What a drain produces** are targets of arcs, at most one item for each arc of a vertex that is
    expanded. -/
theorem size_produced_le_arcs (g : Graph) (distances : Array Nat) (items : List Item) :
    (drain g distances items).produced.size ≤
      (((recorded g distances items).filter fun i => !isStale i).flatMap fun i =>
        g.arcs i.1.vertex).length := by
  induction items generalizing distances with
  | nil => exact Nat.le_refl _
  | cons item items ih =>
    have hlater := ih (drain g distances [item]).distances
    rw [drain_cons, recorded, List.filter_cons]
    show ((drain g distances [item]).produced ++ _).size ≤ _
    rw [Array.size_append]
    cases hstale : isStale (item, distances.getD item.vertex 0) with
    | true =>
      have hfirst : (drain g distances [item]).produced.size = 0 := by
        rw [drain_of_stale g (isStale_iff.1 hstale)]
        rfl
      rw [hfirst, Nat.zero_add, Bool.not_true, if_neg Bool.false_ne_true]
      exact hlater
    | false =>
      have hfirst : (drain g distances [item]).produced.size ≤ 0 + (g.arcs item.vertex).length := by
        rw [drain_of_fresh g (isStale_eq_false_iff.1 hstale)]
        exact Sweep.size_produced_relaxArcs_le _ _ _
      rw [Nat.zero_add] at hfirst
      rw [Bool.not_false, if_pos rfl, List.flatMap_cons, List.length_append]
      exact Nat.add_le_add hfirst hlater

/-- Distinct vertices have no more arcs than the graph has edges. -/
theorem length_flatMap_arcs_le {vertices : List Nat} (hnodup : vertices.Nodup)
    (hlt : ∀ v ∈ vertices, v < g.numNodes) : (vertices.flatMap g.arcs).length ≤ g.numEdges := by
  obtain ⟨ordered, hperm, hsub⟩ := List.subperm_of_subset hnodup fun v hv => List.mem_range.2 (hlt v hv)
  -- Counted vertex by vertex they are part of all arcs, which are as many as the edges.
  rw [← g.length_slots, ← g.flatMap_arcs_numNodes, ← (hperm.flatMap_right g.arcs).length_eq]
  exact (hsub.flatMap g.arcs).length_le

/-! ### Items until nothing waits -/

/-- A run from `source` that takes these items goes on until nothing waits: the items are the source and
    all that they produce, and no arc is left that leads closer. -/
structure Exhausts (g : Graph) (source : Nat) (items : List Item) : Prop where
  perm : items.Perm (⟨source, 0⟩ :: (drainFrom g source items).produced.toList)
  relaxing : Relaxing g source (drainFrom g source items).distances fun _ => False

namespace Exhausts

/-- **No item is taken twice.** -/
theorem nodup (h : Exhausts g source items) : items.Nodup := by
  rw [h.perm.nodup_iff, List.nodup_cons]
  refine ⟨fun hmem => ?_, (distinct_drain g _ _).nodup⟩
  -- Nothing is closer than the source.
  have hlt : 0 < (initialDistances g.numNodes source).getD source 0 :=
    (lowering_drainFrom g source items).lt_of_filed _ hmem
  rw [getD_initialDistances_source] at hlt
  exact absurd hlt (Nat.lt_irrefl 0)

/-- Items are of vertices. -/
theorem vertex_lt (h : Exhausts g source items) (hsource : source < g.numNodes) (hi : i ∈ items) :
    i.vertex < g.numNodes := by
  rcases List.mem_cons.1 (h.perm.mem_iff.1 hi) with rfl | hi
  · exact hsource
  · have hlt := (lowering_drainFrom g source items).lt_of_filed i hi
    have hsize := lt_size_of_lt_getD hlt
    rwa [size_initialDistances] at hsize

/-- Items are at finite distances. -/
theorem distance_lt (h : Exhausts g source items) (hi : i ∈ items) : i.distance < infinity := by
  rcases List.mem_cons.1 (h.perm.mem_iff.1 hi) with rfl | hi
  · show 0 < infinity
    decide
  · exact Nat.lt_of_lt_of_le ((lowering_drainFrom g source items).lt_of_filed i hi)
      (getD_initialDistances_le _ _ _)

/-- **Each vertex that is reached is expanded at its distance.** -/
theorem mem_expandedItems (h : Exhausts g source items) (hv : v < g.numNodes)
    (hreached : (drainFrom g source items).distances.getD v 0 < infinity) :
    ⟨v, (drainFrom g source items).distances.getD v 0⟩ ∈ expandedItems g source items := by
  -- It is the source, or it has been filed at its distance.
  have hmem : ⟨v, (drainFrom g source items).distances.getD v 0⟩ ∈ items := by
    rw [h.perm.mem_iff, List.mem_cons]
    rcases (lowering_drainFrom g source items).filed_of_ne v with heq | hfiled
    · left
      by_cases hvs : v = source
      · rw [hvs, h.relaxing.source_eq]
      · rw [heq, getD_initialDistances_of_ne hv hvs] at hreached
        exact absurd hreached (Nat.lt_irrefl _)
    · exact .inr hfiled
  obtain ⟨d, hvisit⟩ := exists_mem_visitsFrom hmem
  -- What is recorded then is no better than the final distance, so the item is not stale.
  exact mem_expandedItems_iff.2 ⟨d, hvisit, (getD_le_of_mem_recorded hvisit).1⟩

/-! ### Expansions at final distances -/

variable (h : Exhausts g source items)
  (hfinal : ∀ i ∈ expandedItems g source items,
    i.distance = (drainFrom g source items).distances.getD i.vertex 0)
include h hfinal

/-- **A vertex that is reached is expanded once.** -/
theorem filter_expandedItems (hv : v < g.numNodes)
    (hreached : (drainFrom g source items).distances.getD v 0 < infinity) :
    (expandedItems g source items).filter (·.vertex = v) =
      [⟨v, (drainFrom g source items).distances.getD v 0⟩] := by
  have hnodup := (h.nodup.sublist (expandedItems_sublist g source items)).filter (·.vertex = v)
  apply List.perm_singleton.1
  rw [List.perm_ext_iff_of_nodup hnodup (List.nodup_singleton _)]
  intro i
  rw [List.mem_filter, decide_eq_true_iff, List.mem_singleton]
  constructor
  · rintro ⟨hi, rfl⟩
    rw [← hfinal i hi]
  · rintro rfl
    exact ⟨h.mem_expandedItems hv hreached, rfl⟩

/-- **No vertex is expanded twice:** both times it would be by the same item. -/
theorem nodup_vertices : ((expandedItems g source items).map Item.vertex).Nodup := by
  refine (h.nodup.sublist (expandedItems_sublist g source items)).map_on fun i hi j hj hvertex => ?_
  have hdistance : i.distance = j.distance := by
    rw [hfinal i hi, hfinal j hj, hvertex]
  show Item.mk i.vertex i.distance = _
  rw [hvertex, hdistance]

/-- **There are no more items than edges,** besides the source: each item is a target of an arc, whose
    vertex is expanded once. -/
theorem length_le (hsource : source < g.numNodes) : items.length ≤ g.numEdges + 1 := by
  have hproduced := size_produced_le_arcs g (initialDistances g.numNodes source) items
  have harcs := length_flatMap_arcs_le (h.nodup_vertices hfinal) fun v hv => by
    obtain ⟨i, hi, rfl⟩ := List.mem_map.1 hv
    exact h.vertex_lt hsource ((expandedItems_sublist g source items).subset hi)
  rw [expandedItems, List.flatMap_map, List.flatMap_map] at harcs
  rw [h.perm.length_eq, List.length_cons, Array.length_toList]
  exact Nat.succ_le_succ (Nat.le_trans hproduced harcs)

end Exhausts

end SparseGraph.ShortestPath
