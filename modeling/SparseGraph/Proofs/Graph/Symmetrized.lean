import SparseGraph.Graph.Symmetry
import SparseGraph.Proofs.Graph.Rows

namespace SparseGraph.Graph

/-!
# Walks of a symmetrized graph

Merging parallel edges keeps every pair of ends, so the symmetrized graph has an arc just where the
graph has an edge in one direction or the other.

* `exists_mem_firsts` — every item is alike to the first of some run;
* `exists_mem_mergedEdges_iff` — the ends of the merged edges;
* `exists_arc_symmetrized_iff` — where the symmetrized graph has arcs;
* `reaches_symmetrized_iff` — its walks join what edges of the graph link.
-/

/-! ### First of a run -/

section
variable {α : Type} {alike : α → α → Bool} {a x : α} {rest l : List α}

theorem mem_of_mem_firstsFrom (h : x ∈ firstsFrom alike a rest) : x = a ∨ x ∈ rest := by
  induction rest generalizing a with
  | nil => exact .inl (List.mem_singleton.1 h)
  | cons b rest ih =>
    rw [firstsFrom] at h
    split at h
    · exact (ih h).imp_right (List.mem_cons_of_mem b)
    · rcases List.mem_cons.1 h with h | h
      · exact .inl h
      · exact .inr (List.mem_cons.2 (ih h))

/-- Nothing is added. -/
theorem mem_of_mem_firsts (h : x ∈ firsts alike l) : x ∈ l := by
  cases l with
  | nil => exact h
  | cons a rest => exact List.mem_cons.2 (mem_of_mem_firstsFrom h)

/-- **Every item is alike to one that is kept,** if being alike means having something in common. -/
theorem exists_mem_firstsFrom {β : Type} {key : α → β}
    (halike : ∀ a b, alike a b = true ↔ key a = key b) (h : x ∈ a :: rest) :
    ∃ y ∈ firstsFrom alike a rest, key y = key x := by
  induction rest generalizing a x with
  | nil => exact ⟨x, h, rfl⟩
  | cons b rest ih =>
    rw [firstsFrom]
    split
    next hab =>
      -- `b` is left out, but `a` has what it has.
      have hkey := (halike a b).1 hab
      rcases List.mem_cons.1 h with rfl | h
      · exact ih List.mem_cons_self
      · rcases List.mem_cons.1 h with rfl | h
        · rw [← hkey]
          exact ih List.mem_cons_self
        · exact ih (List.mem_cons_of_mem a h)
    next =>
      rcases List.mem_cons.1 h with rfl | h
      · exact ⟨x, List.mem_cons_self, rfl⟩
      · obtain ⟨y, hy, hkey⟩ := ih h
        exact ⟨y, List.mem_cons_of_mem a hy, hkey⟩

theorem exists_mem_firsts {β : Type} {key : α → β}
    (halike : ∀ a b, alike a b = true ↔ key a = key b) (h : x ∈ l) :
    ∃ y ∈ firsts alike l, key y = key x := by
  cases l with
  | nil => exact absurd h List.not_mem_nil
  | cons a rest => exact exists_mem_firstsFrom halike h

end

/-! ### Merged edges -/

variable {g s : Graph} {u v : Nat}

theorem sameEnds_iff (e f : Edge) : sameEnds e f = true ↔ e.ends = f.ends := by
  unfold sameEnds
  exact beq_iff_eq

/-- **The ends of the merged edges** are the ends of the edges and of the edges back. -/
theorem exists_mem_mergedEdges_iff {ends : UInt32 × UInt32} :
    (∃ e ∈ g.mergedEdges, e.ends = ends) ↔
      ∃ e ∈ g.edges, e.ends = ends ∨ e.reverse.ends = ends := by
  constructor
  · rintro ⟨e, he, hends⟩
    have hmem := List.mem_mergeSort.1 (mem_of_mem_firsts he)
    obtain ⟨f, hf, hef⟩ := List.mem_flatMap.1 hmem
    rcases List.mem_cons.1 hef with rfl | hef
    · exact ⟨e, hf, .inl hends⟩
    · rw [List.mem_singleton] at hef
      subst hef
      exact ⟨f, hf, .inr hends⟩
  · rintro ⟨e, he, hends⟩
    have hkept : ∀ f ∈ [e, e.reverse], ∃ k ∈ g.mergedEdges, k.ends = f.ends := by
      intro f hf
      exact exists_mem_firsts sameEnds_iff (List.mem_mergeSort.2 (List.mem_flatMap.2 ⟨e, he, hf⟩))
    rcases hends with rfl | rfl
    · exact hkept e List.mem_cons_self
    · exact hkept e.reverse (List.mem_cons_of_mem e List.mem_cons_self)

/-! ### The symmetrized graph -/

theorem numNodes_symmetrized (h : g.symmetrized = .ok s) : s.numNodes = g.numNodes :=
  numNodes_of_ofEdges h

/-- A graph that can be symmetrized has no more vertices than words can tell apart. -/
theorem numNodes_le_of_symmetrized (h : g.symmetrized = .ok s) : g.numNodes ≤ Text.maxWord :=
  (of_ofEdges h).1

/-- An edge from `u` to `v` is an arc. -/
theorem exists_edge_iff (hn : g.numNodes ≤ Text.maxWord) {t : UInt32} :
    (∃ e ∈ g.edges, e.source.toNat = u ∧ e.target = t) ↔ ∃ a ∈ g.arcs u, a.target = t := by
  constructor
  · rintro ⟨e, he, rfl, rfl⟩
    obtain ⟨w, hw, a, ha, rfl⟩ := (mem_edges_iff hn).1 he
    rw [Arc.source_edgeFrom, toNat_ofNat_of_lt hn hw]
    exact ⟨a, ha, rfl⟩
  · rintro ⟨a, ha, rfl⟩
    have hu := lt_of_mem_arcs ha
    refine ⟨a.edgeFrom (UInt32.ofNat u), (mem_edges_iff hn).2 ⟨u, hu, a, ha, rfl⟩, ?_, rfl⟩
    rw [Arc.source_edgeFrom, toNat_ofNat_of_lt hn hu]

/-- **Arcs of the symmetrized graph** are the edges of the graph, in either direction. -/
theorem exists_arc_symmetrized_iff (h : g.symmetrized = .ok s) {t : UInt32} :
    (∃ a ∈ s.arcs u, a.target = t) ↔
      (∃ a ∈ g.arcs u, a.target = t) ∨ ∃ a ∈ g.arcs t.toNat, a.target.toNat = u := by
  have hn := numNodes_le_of_symmetrized h
  have hmerged : (∃ a ∈ s.arcs u, a.target = t) ↔
      ∃ e ∈ g.mergedEdges, e.source.toNat = u ∧ e.target = t := by
    constructor
    · rintro ⟨a, ha, rfl⟩
      obtain ⟨e, he, hsource, rfl⟩ := (mem_arcs_of_ofEdges h).1 ha
      exact ⟨e, he, hsource, rfl⟩
    · rintro ⟨e, he, hsource, rfl⟩
      exact ⟨e.arc, (mem_arcs_of_ofEdges h).2 ⟨e, he, hsource, rfl⟩, rfl⟩
  rw [hmerged]
  constructor
  · rintro ⟨e, he, rfl, rfl⟩
    obtain ⟨f, hf, hends⟩ := exists_mem_mergedEdges_iff.1 ⟨e, he, rfl⟩
    rcases hends with hends | hends
    · obtain ⟨hsource, htarget⟩ := Prod.mk.inj hends
      exact .inl ((exists_edge_iff hn).1 ⟨f, hf, congrArg UInt32.toNat hsource, htarget⟩)
    · obtain ⟨htarget, hsource⟩ := Prod.mk.inj hends
      obtain ⟨a, ha, hat⟩ := (exists_edge_iff hn).1 ⟨f, hf, congrArg UInt32.toNat hsource, htarget⟩
      exact .inr ⟨a, ha, congrArg UInt32.toNat hat⟩
  · rintro (harc | ⟨a, ha, rfl⟩)
    · obtain ⟨f, hf, hsource, htarget⟩ := (exists_edge_iff hn).2 harc
      obtain ⟨e, he, hends⟩ := exists_mem_mergedEdges_iff.2 ⟨f, hf, .inl rfl⟩
      obtain ⟨hs, ht⟩ := Prod.mk.inj hends
      exact ⟨e, he, by rw [hs, hsource], ht.trans htarget⟩
    · obtain ⟨f, hf, hsource, htarget⟩ := (exists_edge_iff hn).2 ⟨a, ha, rfl⟩
      obtain ⟨e, he, hends⟩ := exists_mem_mergedEdges_iff.2 ⟨f, hf, .inr rfl⟩
      obtain ⟨hs, ht⟩ := Prod.mk.inj hends
      refine ⟨e, he, ?_, ?_⟩
      · rw [hs]
        exact congrArg UInt32.toNat htarget
      · rw [ht]
        exact UInt32.toNat_inj.1 hsource

/-- The same for a target that is told by its number. -/
theorem exists_arc_symmetrized_toNat_iff (h : g.symmetrized = .ok s) :
    (∃ a ∈ s.arcs u, a.target.toNat = v) ↔
      (∃ a ∈ g.arcs u, a.target.toNat = v) ∨ ∃ a ∈ g.arcs v, a.target.toNat = u := by
  constructor
  · rintro ⟨a, ha, rfl⟩
    exact ((exists_arc_symmetrized_iff h).1 ⟨a, ha, rfl⟩).imp_left
      fun ⟨b, hb, hbt⟩ => ⟨b, hb, congrArg UInt32.toNat hbt⟩
  · rintro (⟨a, ha, rfl⟩ | ⟨a, ha, rfl⟩)
    · obtain ⟨b, hb, hbt⟩ := (exists_arc_symmetrized_iff h).2 (.inl ⟨a, ha, rfl⟩)
      exact ⟨b, hb, congrArg UInt32.toNat hbt⟩
    · -- What an arc leaves is a vertex, so its number is that of a word.
      have hv : (UInt32.ofNat v).toNat = v :=
        toNat_ofNat_of_lt (numNodes_le_of_symmetrized h) (lt_of_mem_arcs ha)
      have hback : ∃ b ∈ g.arcs (UInt32.ofNat v).toNat, b.target.toNat = a.target.toNat := by
        rw [hv]
        exact ⟨a, ha, rfl⟩
      obtain ⟨b, hb, hbt⟩ := (exists_arc_symmetrized_iff h).2 (.inr hback)
      exact ⟨b, hb, (congrArg UInt32.toNat hbt).trans hv⟩

/-- **Walks of the symmetrized graph** join the vertices that edges of the graph link. -/
theorem reaches_symmetrized_iff (h : g.symmetrized = .ok s) : s.Reaches u v ↔ g.Linked u v := by
  constructor
  · rintro ⟨weight, hwalk⟩
    induction hwalk with
    | stay => exact .stay
    | @step v weight a _ ha ih =>
      rcases (exists_arc_symmetrized_toNat_iff h).1 ⟨a, ha, rfl⟩ with ⟨b, hb, hbt⟩ | ⟨b, hb, hbt⟩
      · rw [← hbt]
        exact .along ih hb
      · rw [← hbt] at ih
        exact .against ih hb
  · intro hlinked
    induction hlinked with
    | stay => exact .refl s u
    | along _ ha ih =>
      obtain ⟨b, hb, hbt⟩ := (exists_arc_symmetrized_toNat_iff h).2 (.inl ⟨_, ha, rfl⟩)
      rw [← hbt]
      exact ih.step hb
    | against _ ha ih =>
      obtain ⟨b, hb, hbt⟩ := (exists_arc_symmetrized_toNat_iff h).2 (.inr ⟨_, ha, rfl⟩)
      rw [← hbt]
      exact ih.step hb

end SparseGraph.Graph
