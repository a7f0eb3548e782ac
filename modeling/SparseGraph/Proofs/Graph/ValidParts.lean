import SparseGraph.Proofs.Graph.CountingSort
import SparseGraph.Proofs.Graph.Parts

namespace SparseGraph

/-!
# Given arrays, step by step

Arrays are accepted just in case their offsets rise from 0 to the number of targets, there are as many
weights, and all targets are vertices. No check and no difference of offsets gets stuck, and once arrays
are accepted, every vertex is read within them. The arrays of any graph are accepted and give the same
graph, so that a graph is known by its arrays.

* `ValidParts` — arrays that describe a graph; `Graph.exists_ofParts_iff` — they are accepted;
* `Layout.differences_offsets` — the differences of offsets are the degrees;
* `Layout.ofParts_layout`, `Layout.ofParts_eq_kept` — what is kept of given arrays;
* `Layout.ofParts_iff_valid` — all of it.
-/

/-- The arrays describe a graph. -/
structure ValidParts (offsets targets weights : Array UInt32) : Prop where
  nonempty : offsets ≠ #[]
  first_offset : offsets[0]? = some 0
  sorted_offsets : offsets.toList.Pairwise (· ≤ ·)
  last_offset : offsets.back?.map UInt32.toNat = some targets.size
  size_weights : weights.size = targets.size
  target_lt : ∀ t ∈ targets, t.toNat < offsets.size - 1

variable {offsets targets weights : Array UInt32}

namespace Graph

/-- **Arrays are accepted just in case they describe a graph.** -/
theorem exists_ofParts_iff :
    (∃ g, ofParts offsets targets weights = .ok g) ↔ ValidParts offsets targets weights := by
  constructor
  · rintro ⟨g, hg⟩
    obtain ⟨rfl, rfl, rfl⟩ := ofParts_eq_ok_iff.1 hg
    exact {
      nonempty := by
        rintro hempty
        have hpos := g.size_offsets_pos
        rw [hempty] at hpos
        exact Nat.lt_irrefl 0 hpos
      first_offset := g.first_offset
      sorted_offsets := g.sorted_offsets
      last_offset := g.last_offset
      size_weights := g.size_weights
      target_lt := fun t ht => by
        have hlt := g.target_lt t ht
        omega }
  · intro h
    exact ⟨_, ofParts_arrays {
      offsets, targets, weights
      first_offset := h.first_offset
      last_offset := h.last_offset
      sorted_offsets := h.sorted_offsets
      size_weights := h.size_weights
      target_lt := fun t ht => by
        have hlt := h.target_lt t ht
        omega }⟩

/-- A descent is between two words of the list. -/
theorem succ_lt_length_of_firstDescent? {words : List UInt32} {v : Nat}
    (h : firstDescent? words = some v) : v + 1 < words.length := by
  fun_induction firstDescent? words generalizing v with
  | case1 => cases h
  | case2 a => cases h
  | case3 a b rest hba =>
    cases h
    simp
  | case4 a b rest hba ih =>
    obtain ⟨w, hw, rfl⟩ := Option.map_eq_some_iff.1 h
    have hlt := ih hw
    rw [List.length_cons]
    omega

end Graph

namespace Layout

/-- **The differences of the offsets are the degrees,** and none of them gets stuck. -/
theorem differences_offsets (g : Graph) :
    differences g.offsets.toList =
      .ok ((List.range g.numNodes).map fun v => UInt32.ofNat (g.degree v)) := by
  have hsize := g.size_offsets
  unfold differences
  rw [mapM_eq_ok_iff, List.forall₂_iff_get]
  constructor
  · simp only [List.length_zip, List.length_tail, Array.length_toList, List.length_map,
      List.length_range]
    omega
  · intro v _ hv
    simp only [List.length_map, List.length_range] at hv
    have hword : ∀ {u : Nat} (hu : u < g.offsets.toList.length),
        g.offsets.toList[u] = UInt32.ofNat (g.start u) := by
      intro u hu
      rw [Array.length_toList] at hu
      rw [Array.getElem_toList, Graph.start_eq_getElem hu, UInt32.ofNat_toNat]
    simp only [List.get_eq_getElem, List.getElem_zip, List.getElem_tail, hword, List.getElem_map,
      List.getElem_range]
    rw [subtractWords_of_le (Graph.ofNat_start_le hv), Graph.ofNat_degree hv]

/-- The arrays of a graph are accepted, and the graph is kept. -/
theorem ofParts_layout (g : Graph) : ofParts g.offsets g.targets g.weights = .ok g.layout := by
  obtain ⟨last, hback, hlast⟩ := g.exists_last_offset
  have hlast' : last.toNat = g.targets.size := hlast
  have htargets : g.targets.find? (fun t => g.offsets.size - 1 ≤ t.toNat) = none := by
    rw [Array.find?_eq_none]
    intro t ht
    have hlt := g.target_lt t ht
    rw [decide_eq_true_eq]
    omega
  unfold ofParts
  simp only [g.first_offset, hback, hlast', g.size_weights,
    Graph.firstDescent?_eq_none_iff.2 g.sorted_offsets, htargets, differences_offsets, ok_bind,
    ne_eq, not_true_eq_false, if_false]
  rfl

/-- A descent is read without getting stuck. -/
theorem descent_eq {v : Nat} (hv : v + 1 < offsets.size) :
    (do
      let offset ← wordAt offsets v
      let next ← wordAt offsets (v + 1)
      .error (.refused (.malformed (.descent v offset.toNat next.toNat))) : Except Stop Layout) =
      .error (.refused (.malformed
        (.descent v (offsets.getD v 0).toNat (offsets.getD (v + 1) 0).toNat))) := by
  have hread : ∀ i < offsets.size, wordAt offsets i = .ok (offsets.getD i 0) := by
    intro i hi
    rw [wordAt_eq_ok_iff, Array.getD_eq_getD_getElem?, Array.getElem?_eq_getElem hi,
      Option.getD_some]
  rw [hread v (Nat.lt_of_succ_lt hv), ok_bind, hread (v + 1) hv, ok_bind]

/-- **What is kept of given arrays** is the graph with these arrays, and if there is none, the fault
    that is reported is the same. -/
theorem ofParts_eq_kept (offsets targets weights : Array UInt32) :
    ofParts offsets targets weights = kept (Graph.ofParts offsets targets weights) := by
  cases hresult : Graph.ofParts offsets targets weights with
  | ok g =>
    obtain ⟨rfl, rfl, rfl⟩ := Graph.ofParts_eq_ok_iff.1 hresult
    exact ofParts_layout g
  | error error =>
    -- Both make the same checks in the same order.
    unfold Graph.ofParts at hresult
    unfold ofParts
    split at hresult
    next first last hfirst hlast =>
      rw [hfirst, hlast]
      split at hresult
      next h0 => cases hresult; exact if_pos h0
      next h0 =>
        split at hresult
        next hn => cases hresult; exact (if_neg h0).trans (if_pos hn)
        next hn =>
          split at hresult
          next hw => cases hresult; exact (if_neg h0).trans ((if_neg hn).trans (if_pos hw))
          next hw =>
            simp only [h0, hn, hw, if_false]
            split at hresult
            next v hd =>
              cases hresult
              rw [hd]
              exact descent_eq (by simpa using Graph.succ_lt_length_of_firstDescent? hd)
            next hd =>
              split at hresult
              next t ht => cases hresult; rw [hd, ht]; rfl
              next => cases hresult
    next hnone =>
      cases hresult
      split
      next first last hfirst hlast => exact (hnone first last hfirst hlast).elim
      next => rfl

/-- The arrays of a graph are all that has to be known of what is kept of it. -/
theorem components_layout_inj {g h : Graph} :
    g.layout.components = h.layout.components ↔ g = h := by
  constructor
  · intro heq
    obtain ⟨ho, htw⟩ := Prod.mk.inj heq
    obtain ⟨ht, hw⟩ := Prod.mk.inj htw
    exact Graph.ext_arrays ho ht hw
  · rintro rfl
    rfl

/-- **Which arrays are accepted.** No check of given arrays gets stuck, and they are accepted just in
    case they describe a graph. What is kept then has these very arrays, the differences of the offsets
    as its degrees, and rows that are read within them. The arrays of any graph, whatever it was built
    from, are accepted and give that graph again, as do the arrays that are filled by counting; so
    graphs, and what is kept of them, are the same just in case their arrays are. -/
theorem ofParts_iff_valid (offsets targets weights : Array UInt32) :
    ofParts offsets targets weights = kept (Graph.ofParts offsets targets weights) ∧
    ofParts offsets targets weights ≠ .error .stuck ∧
    ((∃ l, ofParts offsets targets weights = .ok l) ↔ ValidParts offsets targets weights) ∧
    (∀ l, ofParts offsets targets weights = .ok l →
      l.components = (offsets, targets, weights) ∧ l.numNodes = offsets.size - 1 ∧
      l.degrees.size = l.numNodes ∧
      ∀ v < l.numNodes, ∃ first last, l.RowBetween v first last) ∧
    (∀ g : Graph, Graph.ofParts g.offsets g.targets g.weights = .ok g ∧
      ofParts g.offsets g.targets g.weights = .ok g.layout) ∧
    (∀ n edges l, ofEdges n edges = .ok l → ofParts l.offsets l.targets l.weights = .ok l) ∧
    ∀ g h : Graph, (g = h ↔ g.layout.components = h.layout.components) ∧
      (g.layout = h.layout ↔ g.layout.components = h.layout.components) := by
  have hkept := ofParts_eq_kept offsets targets weights
  refine ⟨hkept, ?_, ?_, fun l hl => ?_, fun g => ⟨Graph.ofParts_arrays g, ofParts_layout g⟩,
    fun n edges l hl => ?_, fun g h => ⟨components_layout_inj.symm, ?_⟩⟩
  · rw [hkept]
    intro hstuck
    obtain ⟨_, _, hrefused⟩ := kept_eq_error_iff.1 hstuck
    cases hrefused
  · rw [← Graph.exists_ofParts_iff, hkept]
    simp only [kept_eq_ok_iff]
    constructor
    · rintro ⟨_, g, hg, _⟩
      exact ⟨g, hg⟩
    · rintro ⟨g, hg⟩
      exact ⟨g.layout, g, hg, rfl⟩
  · rw [hkept, kept_eq_ok_iff] at hl
    obtain ⟨g, hg, rfl⟩ := hl
    obtain ⟨rfl, rfl, rfl⟩ := Graph.ofParts_eq_ok_iff.1 hg
    exact ⟨rfl, rfl, by simp [Graph.layout], fun v hv => ⟨_, _, Graph.rowBetween hv⟩⟩
  · rw [ofEdges_eq_kept, kept_eq_ok_iff] at hl
    obtain ⟨g, _, rfl⟩ := hl
    exact ofParts_layout g
  · constructor
    · exact congrArg components
    · exact fun heq => congrArg Graph.layout (components_layout_inj.1 heq)

/-- The general theorem at the arrays of a graph with gaps, and at arrays whose offsets descend behind
    the right last one. -/
theorem ofParts_iff_valid_gaps :
    ValidParts #[0, 0, 2, 2, 4, 4] #[2, 1, 0, 2] #[3, 4, 7, 1] ∧
      ofParts #[0, 0, 2, 2, 4, 4] #[2, 1, 0, 2] #[3, 4, 7, 1] = .ok Graph.gaps.layout ∧
      (∃ first last, Graph.gaps.layout.RowBetween 3 first last) ∧
      Graph.gaps.layout.outDegree 3 = .ok 2 ∧
      ¬ ValidParts #[0, 2, 1, 2] #[0, 1] #[5, 6] ∧
      ∀ l, ofParts #[0, 2, 1, 2] #[0, 1] #[5, 6] ≠ .ok l := by
  obtain ⟨_, _, hvalid, hrows, harrays, _⟩ :=
    ofParts_iff_valid #[0, 0, 2, 2, 4, 4] #[2, 1, 0, 2] #[3, 4, 7, 1]
  obtain ⟨_, _, hdescent, _⟩ := ofParts_iff_valid #[0, 2, 1, 2] #[0, 1] #[5, 6]
  have haccepted : ofParts #[0, 0, 2, 2, 4, 4] #[2, 1, 0, 2] #[3, 4, 7, 1] =
      .ok Graph.gaps.layout := (harrays Graph.gaps).2
  have hinvalid : ¬ ValidParts #[0, 2, 1, 2] #[0, 1] #[5, 6] :=
    fun h => absurd h.sorted_offsets (by decide)
  refine ⟨hvalid.1 ⟨_, haccepted⟩, haccepted, ?_, by decide +kernel, hinvalid, fun l hl => ?_⟩
  · exact (hrows _ haccepted).2.2.2 3 (by decide)
  · exact hinvalid (hdescent.1 ⟨l, hl⟩)

end Layout

end SparseGraph
