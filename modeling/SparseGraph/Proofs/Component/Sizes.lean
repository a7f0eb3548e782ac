import Mathlib
import SparseGraph.Component.Sizes
import SparseGraph.Proofs.Component.Agreement
import SparseGraph.Report.Summary

namespace SparseGraph

/-!
# Sizes of weakly connected components

Every component has a least vertex, which labels itself and the rest of the component. So the labels
are as many as the components, and a label is given as often as its component has vertices.

* `Graph.component`, `Graph.components` — the component of a vertex, and all components;
* `Runs`, `runs_componentSizes` — what a tally of any labels holds;
* `isGreatest_largestComponent` — the greatest of its numbers;
* `mem_weakComponents_iff`, `count_weakComponents` — who is a label, and how often;
* `ncard_components` — components are counted by their least vertices;
* `TellsComponents` — labels from which components are counted and measured rightly;
* `labels_tell_components` — those that are propagated in a symmetrized graph do so.
-/

namespace Graph

variable {g : Graph} {u v : Nat}

/-- The vertices that edges join to `v`, whatever their direction. -/
def component (g : Graph) (v : Nat) : Set Nat :=
  {w | g.Linked v w}

/-- The weakly connected components of a graph. -/
def components (g : Graph) : Set (Set Nat) :=
  g.component '' {v | v < g.numNodes}

/-- Edges lead from vertices to vertices only. -/
theorem Linked.lt (h : g.Linked u v) (hu : u < g.numNodes) : v < g.numNodes := by
  induction h with
  | stay => exact hu
  | along _ ha _ => exact target_lt_of_mem_arcs ha
  | against _ ha _ => exact lt_of_mem_arcs ha

/-- Vertices have one component just if edges join them. -/
theorem component_eq_iff : g.component u = g.component v ↔ g.Linked u v := by
  constructor
  · intro h
    have hv : v ∈ g.component v := .stay
    rw [← h] at hv
    exact hv
  · exact fun h => Set.ext fun w => ⟨h.symm.trans, h.trans⟩

end Graph

namespace Component

/-! ### Tallies -/

/-- The runs of equal items of a sorted list: each item once, in order, with the number of its
    occurrences. -/
structure Runs (l : List Nat) (runs : List (Nat × Nat)) : Prop where
  ascending : runs.Pairwise (·.1 < ·.1)
  mem_iff : ∀ a count, (a, count) ∈ runs ↔ a ∈ l ∧ count = l.count a

variable {l labels : List Nat} {runs : List (Nat × Nat)} {a : Nat}

/-- **An item in front** of sorted ones begins a run, or lengthens the first one. -/
theorem Runs.consRun (h : Runs l runs) (hle : ∀ b ∈ l, a ≤ b) :
    Runs (a :: l) (consRun a runs) := by
  cases runs with
  | nil =>
    have hnil : l = [] := List.eq_nil_iff_forall_not_mem.2 fun b hb =>
      List.not_mem_nil ((h.mem_iff b _).2 ⟨hb, rfl⟩)
    subst hnil
    refine ⟨List.pairwise_singleton _ _, fun b count => ?_⟩
    rw [Component.consRun, List.mem_singleton, List.mem_singleton, Prod.mk.injEq]
    refine and_congr_right ?_
    rintro rfl
    rw [List.count_singleton_self]
  | cons run runs =>
    obtain ⟨b, count⟩ := run
    obtain ⟨hfirst, hrest⟩ := List.pairwise_cons.1 h.ascending
    obtain ⟨hb, hcount⟩ := (h.mem_iff b count).1 List.mem_cons_self
    have hother {c n : Nat} (hc : c ≠ a) :
        (c, n) ∈ (b, count) :: runs ↔ c ∈ a :: l ∧ n = (a :: l).count c := by
      rw [h.mem_iff, List.mem_cons, or_iff_right hc, List.count_cons_of_ne (Ne.symm hc)]
    rw [Component.consRun]
    split_ifs with hab
    · -- The first run grows, and no other one is of this item.
      subst hab
      refine ⟨List.pairwise_cons.2 ⟨hfirst, hrest⟩, fun c n => ?_⟩
      by_cases hc : c = a
      · subst hc
        have hnot : (c, n) ∉ runs := fun hmem => Nat.lt_irrefl c (hfirst _ hmem)
        simp [hnot, hcount]
      · rw [← hother hc]
        simp [hc]
    · -- All other runs are of greater items.
      have hlt : a < b := Nat.lt_of_le_of_ne (hle b hb) hab
      have hgreater : ∀ run ∈ (b, count) :: runs, a < run.1 := by
        refine List.forall_mem_cons.2 ⟨hlt, fun run hrun => hlt.trans (hfirst run hrun)⟩
      refine ⟨List.pairwise_cons.2 ⟨hgreater, h.ascending⟩, fun c n => ?_⟩
      by_cases hc : c = a
      · subst hc
        have hnot : (c, n) ∉ (b, count) :: runs := fun hmem => Nat.lt_irrefl c (hgreater _ hmem)
        have hnone : l.count c = 0 := by
          refine List.count_eq_zero.2 fun hmem => Nat.lt_irrefl c ?_
          exact hgreater _ ((h.mem_iff c _).2 ⟨hmem, rfl⟩)
        rw [List.mem_cons, or_iff_left hnot]
        simp [hnone]
      · rw [← hother hc, List.mem_cons, or_iff_right (by simp [hc])]

theorem runs_foldr (h : l.Pairwise (· ≤ ·)) : Runs l (l.foldr consRun []) := by
  induction l with
  | nil => exact ⟨.nil, by simp⟩
  | cons a l ih =>
    obtain ⟨hle, hrest⟩ := List.pairwise_cons.1 h
    exact (ih hrest).consRun hle

/-- **The tally of labels** holds each label once, with the number of its occurrences. -/
theorem runs_componentSizes (labels : List Nat) : Runs labels (componentSizes labels) := by
  have hsorted : (labels.mergeSort (· ≤ ·)).Pairwise (· ≤ ·) := by
    have h := @List.pairwise_mergeSort Nat (fun a b => decide (a ≤ b))
      (by simpa using fun a b c => Nat.le_trans) (by simpa using Nat.le_total) labels
    exact h.imp fun hab => of_decide_eq_true hab
  have hruns := runs_foldr hsorted
  refine ⟨hruns.ascending, fun a count => ?_⟩
  rw [componentSizes, hruns.mem_iff, List.mem_mergeSort,
    (List.mergeSort_perm labels _).count_eq]

/-- The labels of a tally are the labels, each once. -/
theorem Runs.nodup (h : Runs l runs) : (runs.map Prod.fst).Nodup :=
  List.pairwise_map.2 (h.ascending.imp fun hlt => Nat.ne_of_lt hlt)

theorem Runs.length_eq (h : Runs l runs) : runs.length = l.toFinset.card := by
  have hset : (runs.map Prod.fst).toFinset = l.toFinset := by
    ext a
    rw [List.mem_toFinset, List.mem_toFinset, List.mem_map]
    constructor
    · rintro ⟨⟨a, count⟩, hmem, rfl⟩
      exact ((h.mem_iff a count).1 hmem).1
    · exact fun ha => ⟨(a, l.count a), (h.mem_iff a _).2 ⟨ha, rfl⟩, rfl⟩
  rw [← hset, List.toFinset_card_of_nodup h.nodup, List.length_map]

theorem total_map_snd_consRun (a : Nat) (runs : List (Nat × Nat)) :
    total ((consRun a runs).map Prod.snd) = total (runs.map Prod.snd) + 1 := by
  unfold consRun
  split
  · rfl
  · split_ifs
    · simp only [List.map_cons, total]
      omega
    · simp only [List.map_cons, total]
      omega

/-- The numbers of a tally add up to the number of labels. -/
theorem total_componentSizes (labels : List Nat) :
    total ((componentSizes labels).map Prod.snd) = labels.length := by
  rw [← @List.length_mergeSort Nat (· ≤ ·) labels, componentSizes]
  induction labels.mergeSort (· ≤ ·) with
  | nil => rfl
  | cons a l ih => rw [List.foldr_cons, total_map_snd_consRun, ih, List.length_cons]

theorem isGreatest_foldl_max (first : Nat) (l : List Nat) :
    IsGreatest {n | n = first ∨ n ∈ l} (l.foldl max first) := by
  induction l generalizing first with
  | nil => simp
  | cons n l ih =>
    obtain ⟨hmem, hle⟩ := ih (max first n)
    have hge : max first n ≤ l.foldl max (max first n) := hle (.inl rfl)
    refine ⟨?_, ?_⟩
    · rcases hmem with heq | hmem
      · rw [List.foldl_cons, heq]
        rcases max_choice first n with h | h
        · exact .inl h
        · exact .inr (h.symm ▸ List.mem_cons_self)
      · exact .inr (List.mem_cons_of_mem n hmem)
    · rintro m (rfl | hm)
      · exact (le_max_left _ _).trans hge
      · rcases List.mem_cons.1 hm with rfl | hm
        · exact (le_max_right _ _).trans hge
        · exact hle (.inr hm)

/-- **The greatest number of a tally,** if there is a label. -/
theorem isGreatest_largestComponent (hne : labels ≠ []) :
    IsGreatest (labels.count '' {a | a ∈ labels}) (largestComponent labels) := by
  have hruns := runs_componentSizes labels
  have hmem (n : Nat) :
      n ∈ (componentSizes labels).map Prod.snd ↔ n ∈ labels.count '' {a | a ∈ labels} := by
    rw [List.mem_map]
    constructor
    · rintro ⟨⟨a, count⟩, hmem, rfl⟩
      obtain ⟨ha, rfl⟩ := (hruns.mem_iff a count).1 hmem
      exact ⟨a, ha, rfl⟩
    · rintro ⟨a, ha, rfl⟩
      exact ⟨(a, labels.count a), (hruns.mem_iff a _).2 ⟨ha, rfl⟩, rfl⟩
  obtain ⟨hattained, hle⟩ := isGreatest_foldl_max 0 ((componentSizes labels).map Prod.snd)
  refine ⟨?_, fun n hn => hle (.inr ((hmem n).2 hn))⟩
  rw [largestComponent]
  rcases hattained with hzero | hattained
  · -- Some label occurs, so the greatest number is not zero.
    obtain ⟨a, ha⟩ := List.exists_mem_of_ne_nil labels hne
    have hcount : labels.count a ≤ _ := hle (.inr ((hmem _).2 ⟨a, ha, rfl⟩))
    have hpos : 0 < labels.count a := List.count_pos_iff.2 ha
    omega
  · exact (hmem _).1 hattained

/-! ### Labels of components -/

section
variable {g : Graph} {v : Nat}

/-- The least vertex of the component of a vertex. -/
def leastOf (g : Graph) (v : Nat) : Nat :=
  (Forest.ofEdges g.numNodes g.edges).root v

theorem leastOf_leastOf (g : Graph) (v : Nat) : leastOf g (leastOf g v) = leastOf g v :=
  Forest.root_root _ v

theorem leastOf_eq_iff (hn : g.numNodes ≤ Text.maxWord) {u : Nat} :
    leastOf g u = leastOf g v ↔ g.Linked u v :=
  Forest.root_ofEdges_eq_iff hn

theorem leastOf_le (g : Graph) (v : Nat) : leastOf g v ≤ v :=
  Forest.root_le _ v

theorem weakComponents_eq_map (g : Graph) :
    weakComponents g = (List.range g.numNodes).map (leastOf g) :=
  Forest.roots_eq_map _ _

/-- **A label** is a vertex that labels itself. -/
theorem mem_weakComponents_iff :
    v ∈ weakComponents g ↔ v < g.numNodes ∧ leastOf g v = v := by
  rw [weakComponents_eq_map, List.mem_map]
  constructor
  · rintro ⟨w, hw, rfl⟩
    exact ⟨(leastOf_le g w).trans_lt (List.mem_range.1 hw), leastOf_leastOf g w⟩
  · rintro ⟨hv, hself⟩
    exact ⟨v, List.mem_range.2 hv, hself⟩

theorem getElem?_weakComponents_eq_self_iff :
    (weakComponents g)[v]? = some v ↔ v ∈ weakComponents g := by
  rw [mem_weakComponents_iff, weakComponents_eq_map, List.getElem?_map]
  by_cases hv : v < g.numNodes
  · simp [hv]
  · simp [hv]

/-- **A label occurs** once for each vertex of its component. -/
theorem count_weakComponents (hn : g.numNodes ≤ Text.maxWord) (hv : v ∈ weakComponents g) :
    (weakComponents g).count v = (g.component v).ncard := by
  obtain ⟨hlt, hself⟩ := mem_weakComponents_iff.1 hv
  have hset : g.component v = ((Finset.range g.numNodes).filter (leastOf g · = v) : Finset Nat) := by
    ext w
    rw [Finset.mem_coe, Finset.mem_filter, Finset.mem_range]
    constructor
    · exact fun h => ⟨Graph.Linked.lt h hlt, ((leastOf_eq_iff hn).2 h).symm.trans hself⟩
    · exact fun h => (leastOf_eq_iff hn).1 (hself.trans h.2.symm)
  rw [hset, Set.ncard_coe_finset, weakComponents_eq_map, List.count, List.countP_map,
    List.countP_eq_length_filter]
  rfl

/-- **Components are those of labels:** that of a vertex is that of its label. -/
theorem components_eq_image (hn : g.numNodes ≤ Text.maxWord) :
    g.components = g.component '' {v | v ∈ weakComponents g} := by
  ext c
  constructor
  · rintro ⟨v, hv, rfl⟩
    refine ⟨leastOf g v, mem_weakComponents_iff.2 ⟨?_, leastOf_leastOf g v⟩, ?_⟩
    · exact (leastOf_le g v).trans_lt hv
    · rw [Graph.component_eq_iff, ← leastOf_eq_iff hn, leastOf_leastOf]
  · rintro ⟨v, hv, rfl⟩
    exact ⟨v, (mem_weakComponents_iff.1 hv).1, rfl⟩

/-- **Components are as many** as labels. -/
theorem ncard_components (hn : g.numNodes ≤ Text.maxWord) :
    g.components.ncard = (weakComponents g).toFinset.card := by
  rw [components_eq_image hn, Set.InjOn.ncard_image, ← List.coe_toFinset, Set.ncard_coe_finset]
  -- Labels of one component are both its least vertex.
  intro u hu v hv heq
  rwa [Graph.component_eq_iff, ← leastOf_eq_iff hn, (mem_weakComponents_iff.1 hu).2,
    (mem_weakComponents_iff.1 hv).2] at heq

/-- What is told about labels is true of the components of a graph. -/
structure TellsComponents (g : Graph) (labels : List Nat) : Prop where
  /-- Components are counted. -/
  count_components : countComponents labels = g.components.ncard
  /-- So are the vertices that label themselves. -/
  count_selves : countComponents labels = {v : Nat | labels[v]? = some v}.ncard
  /-- No label is listed twice. -/
  nodup_sizes : ((componentSizes labels).map Prod.fst).Nodup
  /-- The vertices that label themselves are listed, each with the size of its component. -/
  mem_sizes_iff : ∀ v size, (v, size) ∈ componentSizes labels ↔
    labels[v]? = some v ∧ size = (g.component v).ncard
  total_sizes : total ((componentSizes labels).map Prod.snd) = g.numNodes
  largest_of_empty : g.numNodes = 0 → largestComponent labels = 0
  isGreatest_largest : 0 < g.numNodes →
    IsGreatest (Set.ncard '' g.components) (largestComponent labels)
  /-- A summary holds the same numbers. -/
  summary_eq : Report.ComponentSummary.ofLabels labels =
    ⟨g.components.ncard, largestComponent labels⟩

/-- The greatest size is that of a largest component. -/
theorem isGreatest_ncard_components (hn : g.numNodes ≤ Text.maxWord) (hpos : 0 < g.numNodes) :
    IsGreatest (Set.ncard '' g.components) (largestComponent (weakComponents g)) := by
  have hne : weakComponents g ≠ [] :=
    List.ne_nil_of_length_pos ((length_weakComponents g).symm ▸ hpos)
  have hsizes : (fun v => (g.component v).ncard) '' {v | v ∈ weakComponents g} =
      (weakComponents g).count '' {v | v ∈ weakComponents g} :=
    Set.image_congr fun v hv => (count_weakComponents hn hv).symm
  rw [components_eq_image hn, Set.image_image, hsizes]
  exact isGreatest_largestComponent hne

theorem tellsComponents_weakComponents (hn : g.numNodes ≤ Text.maxWord) :
    TellsComponents g (weakComponents g) := by
  have hruns := runs_componentSizes (weakComponents g)
  have hcount : countComponents (weakComponents g) = g.components.ncard := by
    rw [countComponents, hruns.length_eq, ncard_components hn]
  refine {
    count_components := hcount
    count_selves := ?_
    nodup_sizes := hruns.nodup
    mem_sizes_iff := fun v size => ?_
    total_sizes := ?_
    largest_of_empty := fun hzero => ?_
    isGreatest_largest := isGreatest_ncard_components hn
    summary_eq := ?_ }
  · have hself : {v : Nat | (weakComponents g)[v]? = some v} = (weakComponents g).toFinset := by
      rw [List.coe_toFinset]
      exact Set.ext fun v => getElem?_weakComponents_eq_self_iff
    rw [hself, Set.ncard_coe_finset, countComponents, hruns.length_eq]
  · rw [hruns.mem_iff, getElem?_weakComponents_eq_self_iff]
    refine and_congr_right fun hv => ?_
    rw [count_weakComponents hn hv]
  · rw [total_componentSizes, length_weakComponents]
  · have hnil : weakComponents g = [] :=
      List.eq_nil_of_length_eq_zero ((length_weakComponents g).trans hzero)
    rw [hnil]
    simp [largestComponent, componentSizes]
  · rw [← hcount]
    rfl

end

/-- **What is told about the labels of a symmetrized graph** is true of the components of the graph
    itself: how many there are, the size of each, and the size of the largest. -/
theorem labels_tell_components {g s : Graph} (h : g.symmetrized = .ok s) :
    TellsComponents g (propagate s).labels.toList := by
  rw [labels_propagate_symmetrized h]
  exact tellsComponents_weakComponents (Graph.numNodes_le_of_symmetrized h)

/-! ### Two components -/

/-- Vertices 1 and 3 lead to vertex 4, vertices 0 and 2 to one another, and vertex 5 to none. -/
def islands : Graph where
  offsets := #[0, 1, 2, 3, 5, 5, 5]
  targets := #[2, 4, 0, 4, 4]
  weights := #[2, 9, 8, 3, 6]
  first_offset := rfl
  last_offset := rfl
  sorted_offsets := by decide
  size_weights := rfl
  target_lt := by simp

/-- The same graph with each edge in both directions. -/
def islandsBoth : Graph where
  offsets := #[0, 1, 2, 3, 4, 6, 6]
  targets := #[2, 4, 0, 4, 1, 3]
  weights := #[2, 9, 2, 3, 9, 3]
  first_offset := rfl
  last_offset := rfl
  sorted_offsets := by decide
  size_weights := rfl
  target_lt := by simp

/-- The general theorem at this graph: of its three components that of vertex 1 is the largest. -/
theorem labels_tell_components_islands :
    islands.symmetrized = .ok islandsBoth ∧
      (propagate islandsBoth).labels = #[0, 1, 0, 1, 1, 5] ∧
      islands.components.ncard = 3 ∧ (islands.component 1).ncard = 3 ∧
      componentSizes [0, 1, 0, 1, 1, 5] = [(0, 2), (1, 3), (5, 1)] ∧
      IsGreatest (Set.ncard '' islands.components) 3 := by
  have hboth : islands.symmetrized = .ok islandsBoth := by cbv
  have hlabels : (propagate islandsBoth).labels = #[0, 1, 0, 1, 1, 5] := by decide +kernel
  have hsizes : componentSizes [0, 1, 0, 1, 1, 5] = [(0, 2), (1, 3), (5, 1)] := by cbv
  have htold := labels_tell_components hboth
  rw [hlabels] at htold
  have hcount : countComponents [0, 1, 0, 1, 1, 5] = 3 := congrArg List.length hsizes
  have hlargest : largestComponent [0, 1, 0, 1, 1, 5] = 3 := by
    rw [largestComponent, hsizes]
    rfl
  have hgreatest := htold.isGreatest_largest (by decide)
  rw [hlargest] at hgreatest
  refine ⟨hboth, hlabels, htold.count_components.symm.trans hcount, ?_, hsizes, hgreatest⟩
  have hmem : (1, 3) ∈ componentSizes [0, 1, 0, 1, 1, 5] := by
    rw [hsizes]
    decide
  exact ((htold.mem_sizes_iff 1 3).1 hmem).2.symm

end Component

end SparseGraph
