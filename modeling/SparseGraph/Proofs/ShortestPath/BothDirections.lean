import SparseGraph.Proofs.Graph.Merging
import SparseGraph.Proofs.ShortestPath.DeltaStepping

namespace SparseGraph

/-!
# Distances in a symmetrized graph

Merging keeps one weight for both directions of an edge, so each walk of a symmetrized graph can be
walked back at the same weight. No arc is lost and none becomes heavier, so a walk of the graph can
be followed at no greater weight.

* `Graph.exists_arc_back`, `Graph.exists_lighter_arc` — the arc back, and the arc that an arc of the
  graph is merged into;
* `Graph.Walk.back`, `Graph.Walk.exists_lighter` — the same for walks;
* `ShortestPath.isDistance_back`, `ShortestPath.isDistance_le_of_symmetrized` — and for distances;
* `ShortestPath.deltaStep_symmetric` — what delta stepping finds.
-/

namespace Graph

variable {g s : Graph} {u v weight : Nat} {a : Arc}

/-! ### Arcs -/

/-- An arc is one of the edges, seen from its source. -/
theorem mem_arcs_iff (hn : g.numNodes ≤ Text.maxWord) :
    a ∈ g.arcs v ↔ ∃ e ∈ g.edges, e.source.toNat = v ∧ e.arc = a := by
  constructor
  · intro ha
    have hv := lt_of_mem_arcs ha
    exact ⟨a.edgeFrom (UInt32.ofNat v), (mem_edges_iff hn).2 ⟨v, hv, a, ha, rfl⟩,
      toNat_ofNat_of_lt hn hv, rfl⟩
  · rintro ⟨e, he, rfl, rfl⟩
    obtain ⟨w, hw, a, ha, rfl⟩ := (mem_edges_iff hn).1 he
    rw [Arc.source_edgeFrom, toNat_ofNat_of_lt hn hw, Arc.arc_edgeFrom]
    exact ha

/-- **Each arc of a symmetrized graph** has an arc back of the same weight. -/
theorem exists_arc_back (h : g.symmetrized = .ok s) (ha : a ∈ s.arcs v) :
    ∃ b ∈ s.arcs a.target.toNat, b.target.toNat = v ∧ b.weight = a.weight := by
  have hn : s.numNodes ≤ Text.maxWord := numNodes_le_of_ofEdges h
  obtain ⟨e, he, rfl, rfl⟩ := (mem_arcs_iff hn).1 ha
  have hback := reverse_mem_of_symmetrized h he
  exact ⟨e.reverse.arc, (mem_arcs_iff hn).2 ⟨e.reverse, hback, rfl, rfl⟩, rfl, rfl⟩

/-- **Each arc of the graph** is merged into one that is no heavier. -/
theorem exists_lighter_arc (h : g.symmetrized = .ok s) (ha : a ∈ g.arcs v) :
    ∃ b ∈ s.arcs v, b.target = a.target ∧ b.weight.toNat ≤ a.weight.toNat := by
  obtain ⟨e, he, rfl, rfl⟩ := (mem_arcs_iff (numNodes_le_of_symmetrized h)).1 ha
  -- The edge that is kept between its ends is as light as any of them.
  obtain ⟨k, hk, hends⟩ := exists_mem_mergedEdges_iff.2 ⟨e, he, .inl rfl⟩
  obtain ⟨hsource, htarget⟩ := Prod.mk.inj hends
  have hweight : e.weight ∈ g.weightsBetween k.source k.target := by
    rw [hsource, htarget]
    exact .inl he
  have hmem : k ∈ s.edges := by
    rw [edges_of_symmetrized h]
    exact hk
  refine ⟨k.arc, (mem_arcs_iff (numNodes_le_of_ofEdges h)).2 ⟨k, hmem, ?_, rfl⟩, htarget, ?_⟩
  · rw [hsource]
  · exact UInt32.le_iff_toNat_le.1 (weight_le_of_mem_mergedEdges hk hweight)

/-! ### Walks -/

/-- **Walking back** in a symmetrized graph takes the same weight. -/
theorem Walk.back (h : g.symmetrized = .ok s) (walk : s.Walk u v weight) : s.Walk v u weight := by
  induction walk with
  | stay => exact .stay
  | @step v weight a _ ha ih =>
    obtain ⟨b, hb, htarget, hweight⟩ := exists_arc_back h ha
    have hfirst : s.Walk a.target.toNat v (0 + a.weight.toNat) := by
      rw [← htarget, ← hweight]
      exact .step .stay hb
    rw [Nat.zero_add] at hfirst
    rw [Nat.add_comm]
    exact hfirst.append ih

/-- **A walk of the graph** can be followed in the symmetrized graph, at no greater weight. -/
theorem Walk.exists_lighter (h : g.symmetrized = .ok s) (walk : g.Walk u v weight) :
    ∃ lighter ≤ weight, s.Walk u v lighter := by
  induction walk with
  | stay => exact ⟨0, Nat.le_refl 0, .stay⟩
  | @step v weight a _ ha ih =>
    obtain ⟨lighter, hle, hwalk⟩ := ih
    obtain ⟨b, hb, htarget, hweight⟩ := exists_lighter_arc h ha
    rw [← htarget]
    exact ⟨lighter + b.weight.toNat, Nat.add_le_add hle hweight, .step hwalk hb⟩

end Graph

namespace ShortestPath

variable {g s : Graph} {u v d d' : Nat}

/-! ### Distances -/

/-- **The distance back** is the same. -/
theorem isDistance_back (h : g.symmetrized = .ok s) (hd : IsDistance s u v d) :
    IsDistance s v u d := by
  rw [isDistance_iff] at hd ⊢
  obtain ⟨hle, hattained, hleast⟩ := hd
  exact ⟨hle, fun hlt => (hattained hlt).back h, fun weight walk => hleast weight (walk.back h)⟩

/-- **Distances do not grow** when a graph is symmetrized. -/
theorem isDistance_le_of_symmetrized (h : g.symmetrized = .ok s) (hd : IsDistance s u v d)
    (hd' : IsDistance g u v d') : d ≤ d' := by
  obtain ⟨hle, _, hleast⟩ := isDistance_iff.1 hd
  obtain ⟨hle', hattained, _⟩ := isDistance_iff.1 hd'
  rcases Nat.lt_or_eq_of_le hle' with hlt | rfl
  · obtain ⟨lighter, hlighter, walk⟩ := (hattained hlt).exists_lighter h
    exact (hleast lighter walk).trans hlighter
  · exact hle

/-- **Distances are symmetric** in a symmetrized graph, and none is greater than in the graph
    itself, whatever the widths of the buckets in the three runs. -/
theorem deltaStep_symmetric {g s : Graph} (h : g.symmetrized = .ok s) {u v : Nat}
    (hu : u < g.numNodes) (hv : v < g.numNodes) (shift shift' shift'' : Nat) :
    ∃ there back before d d', deltaStep s u shift = .ok there ∧
      deltaStep s v shift' = .ok back ∧ deltaStep g u shift'' = .ok before ∧
      there.distances[v]? = some d ∧ back.distances[u]? = some d ∧
      before.distances[v]? = some d' ∧ d ≤ d' := by
  have hn : s.numNodes = g.numNodes := Graph.numNodes_symmetrized h
  have hus : u < s.numNodes := hn.symm ▸ hu
  have hvs : v < s.numNodes := hn.symm ▸ hv
  obtain ⟨there, d, hthere, hd, hdist⟩ := exists_deltaStep_distance hus hvs shift
  obtain ⟨back, e, hback, he, hdist'⟩ := exists_deltaStep_distance hvs hus shift'
  obtain ⟨before, d', hbefore, hd', hdist''⟩ := exists_deltaStep_distance hu hv shift''
  have heq : d = e := (isDistance_back h hdist).unique hdist'
  exact ⟨there, back, before, d, d', hthere, hback, hbefore, hd, heq ▸ he, hd',
    isDistance_le_of_symmetrized h hdist hdist''⟩

/-! ### Sums about to be cut off -/

/-- A heavy edge in each direction between vertices 0 and 1, and parallel edges from 2 to 1. -/
def brink : Graph where
  offsets := #[0, 1, 2, 4]
  targets := #[1, 0, 1, 1]
  weights := #[4294967295, 4294967290, 7, 3]
  first_offset := rfl
  last_offset := rfl
  sorted_offsets := by decide
  size_weights := rfl
  target_lt := by simp

/-- The same graph with each edge in both directions. -/
def brinkBoth : Graph where
  offsets := #[0, 1, 3, 4]
  targets := #[1, 0, 2, 1]
  weights := #[4294967290, 4294967290, 3, 3]
  first_offset := rfl
  last_offset := rfl
  sorted_offsets := by decide
  size_weights := rfl
  target_lt := by simp

/-- The general theorem at this graph: the sum from 0 to 2 is not cut off yet and is found on the way
    back too, while in the graph itself no walk leads there. -/
theorem deltaStep_symmetric_brink :
    brink.symmetrized = .ok brinkBoth ∧ 0 < brink.numNodes ∧ 2 < brink.numNodes ∧
      ∃ there back before, deltaStep brinkBoth 0 3 = .ok there ∧
        deltaStep brinkBoth 2 40 = .ok back ∧ deltaStep brink 0 0 = .ok before ∧
        there.distances[2]? = some 4294967293 ∧ back.distances[0]? = some 4294967293 ∧
        before.distances[2]? = some infinity := by
  have hboth : brink.symmetrized = .ok brinkBoth := by cbv
  have hfirst : 0 < brink.numNodes := by decide
  have hsecond : 2 < brink.numNodes := by decide
  have hthere : deltaStep brinkBoth 0 3 = .ok ⟨#[0, 4294967290, 4294967293], ⟨3, 2, 0⟩⟩ := by
    decide +kernel
  have hbefore : deltaStep brink 0 0 = .ok ⟨#[0, infinity, infinity], ⟨1, 0, 0⟩⟩ := by
    decide +kernel
  obtain ⟨there, back, before, d, d', hrun, hback, hrun', hd, hd', _, _⟩ :=
    deltaStep_symmetric hboth hfirst hsecond 3 40 0
  rw [hthere] at hrun
  cases hrun
  cases hd
  exact ⟨hboth, hfirst, hsecond, _, back, _, hthere, hback, hbefore, rfl, hd', rfl⟩

end ShortestPath

end SparseGraph
