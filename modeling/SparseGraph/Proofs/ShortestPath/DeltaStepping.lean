import SparseGraph.Proofs.ShortestPath.Relaxation
import SparseGraph.Proofs.Worklist

namespace SparseGraph.ShortestPath

/-!
# Delta stepping finds the distances

A drain is a sequence of visits, so it keeps the invariant of a search, and a run ends when nothing
waits.

* `visits_drain` — the items of a bucket are visited one after another;
* `Progress.relaxing_drain?` — one drain keeps the invariant;
* `Progress.relaxing_finish` — so does a whole run, and nothing waits after it;
* `exists_deltaStep`, `exists_deltaStep_distance` — a run from a vertex, and what it finds;
* `deltaStep_isDistance` — whatever the width of the buckets, each vertex gets its distance, and
  only a source that is no vertex is refused;
* `detour` — a small graph with a way round, a sum beyond all words, and a vertex out of reach.
-/

/-! ### One drain -/

/-- One item is visited in the course of a drain. -/
theorem Sweep.exists_visit (g : Graph) (s : Sweep) (item : Item) :
    ∃ filed, Visit g item s.distances (s.visit g item).distances filed ∧
      (s.visit g item).produced.toList = s.produced.toList ++ filed := by
  unfold visit
  dsimp only
  split
  next h => exact ⟨[], .stale h, (List.append_nil _).symm⟩
  next h =>
    obtain ⟨filed, hrel, hprod⟩ :=
      s.exists_relaxation (s.distances.getD item.vertex 0) (g.arcs item.vertex)
    exact ⟨filed, .fresh (Nat.le_of_not_lt h) (.refl _) hrel, hprod⟩

/-- Items are visited one after another, and what they file is produced in that order. -/
theorem exists_visits_foldl (g : Graph) (items : List Item) (s : Sweep) :
    ∃ filed, Visits g items s.distances (items.foldl (Sweep.visit g) s).distances filed ∧
      (items.foldl (Sweep.visit g) s).produced.toList = s.produced.toList ++ filed := by
  induction items generalizing s with
  | nil => exact ⟨[], .nil s.distances, (List.append_nil _).symm⟩
  | cons item items ih =>
    obtain ⟨first, hvisit, hprod₁⟩ := s.exists_visit g item
    obtain ⟨second, hvisits, hprod₂⟩ := ih (s.visit g item)
    refine ⟨first ++ second, .cons hvisit hvisits, ?_⟩
    rw [List.foldl_cons, hprod₂, hprod₁, List.append_assoc]

/-- **A drain** visits the items of its bucket and produces what they file. -/
theorem visits_drain (g : Graph) (distances : Array Nat) (items : List Item) :
    Visits g items distances (drain g distances items).distances
      (drain g distances items).produced.toList := by
  obtain ⟨filed, hvisits, hprod⟩ := exists_visits_foldl g items ⟨distances, #[], 0⟩
  rw [List.nil_append] at hprod
  unfold drain
  rw [hprod]
  exact hvisits

/-- A stale item changes nothing. -/
theorem drain_of_stale {distances : Array Nat} {item : Item} (g : Graph)
    (h : distances.getD item.vertex 0 < item.distance) :
    drain g distances [item] = ⟨distances, #[], 1⟩ :=
  if_pos h

/-- An item that is not stale expands its vertex. -/
theorem drain_of_fresh {distances : Array Nat} {item : Item} (g : Graph)
    (h : item.distance ≤ distances.getD item.vertex 0) :
    drain g distances [item] =
      Sweep.relaxArcs ⟨distances, #[], 0⟩ (distances.getD item.vertex 0) (g.arcs item.vertex) :=
  if_neg (Nat.not_lt.2 h)

/-! ### Runs -/

namespace Progress

variable {g : Graph} {source shift : Nat} {p q : Progress shift} {d : Drain}

/-- **What a drain does.** The least bucket leaves the worklist, and what its items produce comes
    in. -/
theorem of_drain? (h : p.drain? g = some (d, q)) :
    d.distances = p.distances ∧ q.distances = (drain g p.distances d.items).distances ∧
      ∃ items rest, p.pending.popMin? = some (d.bucket, items, rest) ∧ items.toList = d.items ∧
        q.pending = rest.extend (drain g p.distances d.items).produced.toList := by
  unfold drain? at h
  obtain ⟨⟨i, items, rest⟩, hpop, h⟩ := Option.map_eq_some_iff.1 h
  cases h
  exact ⟨rfl, rfl, items, rest, hpop, rfl, rfl⟩

/-- What a drain counts: itself, what it produced, and what it found stale. -/
theorem tally_of_drain? (h : p.drain? g = some (d, q)) :
    q.tally = ⟨p.tally.rounds + 1,
      p.tally.relaxations + (drain g p.distances d.items).produced.size,
      p.tally.stale + (drain g p.distances d.items).stale⟩ := by
  unfold drain? at h
  obtain ⟨⟨i, items, rest⟩, _, h⟩ := Option.map_eq_some_iff.1 h
  cases h
  rfl

/-- Before a drain the items of the bucket wait, and after it what they produced. -/
theorem exists_waits_of_drain? (h : p.drain? g = some (d, q)) :
    ∃ rest : Worklist Item (fun item => bucketOf shift item.distance),
      (∀ i, i ∈ p.pending ↔ i ∈ d.items ∨ i ∈ rest) ∧
      (∀ i, i ∈ q.pending ↔
        i ∈ rest ∨ i ∈ (drain g p.distances d.items).produced.toList) ∧
      (∀ i ∈ d.items, bucketOf shift i.distance = d.bucket) ∧
      ∀ i ∈ rest, d.bucket < bucketOf shift i.distance := by
  obtain ⟨_, _, items, rest, hpop, hitems, hpending⟩ := of_drain? h
  refine ⟨rest, fun i => ?_, fun i => ?_, fun i hi => ?_, fun i hi => ?_⟩
  · rw [Worklist.mem_popMin? hpop, ← hitems, Array.mem_toList_iff]
  · rw [hpending, Worklist.mem_extend]
  · rw [← hitems, Array.mem_toList_iff] at hi
    have hindex := Worklist.index_of_popMin? hpop hi
    exact hindex
  · have hindex := Worklist.lt_index_of_popMin? hpop hi
    exact hindex

/-- At the start of a run the source waits. -/
theorem mem_pending_start {distances : Array Nat} {i : Item} :
    i ∈ (start shift source distances).pending ↔ i = ⟨source, 0⟩ := by
  show i ∈ Worklist.push _ _ ↔ _
  rw [Worklist.mem_push]
  exact or_iff_left Worklist.not_mem_empty

/-- The invariant holds at the start. -/
theorem relaxing_start (g : Graph) (source shift : Nat) :
    Relaxing g source (start shift source (initialDistances g.numNodes source)).distances
      (· ∈ (start shift source (initialDistances g.numNodes source)).pending) :=
  (Relaxing.initial g source).congr fun _ => mem_pending_start.symm

/-- **A drain keeps the invariant.** -/
theorem relaxing_drain? (h : p.drain? g = some (d, q))
    (inv : Relaxing g source p.distances (· ∈ p.pending)) :
    Relaxing g source q.distances (· ∈ q.pending) := by
  obtain ⟨_, hdist, _⟩ := of_drain? h
  obtain ⟨rest, hbefore, hafter, _⟩ := exists_waits_of_drain? h
  rw [hdist]
  have hvisits := visits_drain g p.distances d.items
  exact (hvisits.relaxing (inv.congr hbefore)).congr fun i => (hafter i).symm

/-- **A run keeps the invariant,** and nothing waits after it. -/
theorem relaxing_finish (inv : Relaxing g source p.distances (· ∈ p.pending)) :
    Relaxing g source (p.finish g).distances fun _ => False := by
  fun_induction finish g p with
  | case1 p h =>
    have hnone : p.pending.popMin? = none := Option.map_eq_none_iff.1 h
    exact inv.congr fun i => iff_false_intro (Worklist.not_mem_of_popMin? hnone)
  | case2 p d q h ih => exact ih (relaxing_drain? h inv)

end Progress

/-! ### The distances from a source -/

/-- The distance that stands at a vertex. -/
theorem getElem?_eq_some_getD {distances : Array Nat} {v : Nat} (hv : v < distances.size) :
    distances[v]? = some (distances.getD v 0) := by
  rw [Array.getD_eq_getD_getElem?, Array.getElem?_eq_getElem hv]
  rfl

/-- From a vertex the search succeeds, and the distances it returns satisfy the invariant with
    nothing waiting. -/
theorem exists_deltaStep {g : Graph} {source : Nat} (h : source < g.numNodes) (shift : Nat) :
    ∃ r, deltaStep g source shift = .ok r ∧ Relaxing g source r.distances fun _ => False := by
  unfold deltaStep
  rw [if_pos h]
  exact ⟨_, rfl, Progress.relaxing_finish (Progress.relaxing_start g source shift)⟩

/-- At each vertex it returns the distance of the vertex. -/
theorem exists_deltaStep_distance {g : Graph} {source v : Nat} (h : source < g.numNodes)
    (hv : v < g.numNodes) (shift : Nat) :
    ∃ r d, deltaStep g source shift = .ok r ∧ r.distances[v]? = some d ∧
      IsDistance g source v d := by
  obtain ⟨r, hr, inv⟩ := exists_deltaStep h shift
  exact ⟨r, _, hr, getElem?_eq_some_getD (inv.size_eq.symm ▸ hv),
    inv.isDistance (fun _ => not_false) hv⟩

/-- **Delta stepping finds the distances.** From a vertex the search succeeds for every width of
    the buckets, and each vertex gets the least weight of a walk from the source, cut off at
    `infinity`. A source that is no vertex is refused. -/
theorem deltaStep_isDistance (g : Graph) (source shift : Nat) :
    (source < g.numNodes → ∃ r, deltaStep g source shift = .ok r ∧
      r.distances.size = g.numNodes ∧
      ∀ v < g.numNodes, ∃ d, r.distances[v]? = some d ∧ IsDistance g source v d) ∧
    (g.numNodes ≤ source →
      deltaStep g source shift = .error (.vertexOutOfBounds source g.numNodes)) := by
  constructor
  · intro hsource
    obtain ⟨r, hr, inv⟩ := exists_deltaStep hsource shift
    refine ⟨r, hr, inv.size_eq, fun v hv => ⟨r.distances.getD v 0, ?_, ?_⟩⟩
    · exact getElem?_eq_some_getD (by rw [inv.size_eq]; exact hv)
    · exact inv.isDistance (fun _ => not_false) hv
  · intro hsource
    unfold deltaStep
    rw [if_neg (Nat.not_lt.2 hsource)]

/-! ### A detour -/

/-- Vertex 1 is closer by way of vertex 2 than along the arc to it, the sum at vertex 3 goes beyond
    all words, and no arc leads to vertex 4. -/
def detour : Graph where
  offsets := #[0, 2, 4, 6, 7, 7]
  targets := #[1, 2, 2, 3, 1, 1, 0]
  weights := #[4, 1, 0, 4294967295, 1, 7, 0]
  first_offset := rfl
  last_offset := rfl
  sorted_offsets := by decide
  size_weights := rfl
  target_lt := by simp

/-- The general theorem at the detour: the way round is found, the sum at vertex 3 is cut off, and
    vertex 5 is refused as a source. -/
theorem deltaStep_isDistance_detour :
    0 < detour.numNodes ∧
      deltaStep detour 0 1 = .ok ⟨#[0, 2, 1, infinity, infinity], ⟨4, 3, 1⟩⟩ ∧
      IsDistance detour 0 1 2 ∧ IsDistance detour 0 3 infinity ∧
      detour.numNodes ≤ 5 ∧ deltaStep detour 5 1 = .error (.vertexOutOfBounds 5 5) := by
  have hrun : deltaStep detour 0 1 = .ok ⟨#[0, 2, 1, infinity, infinity], ⟨4, 3, 1⟩⟩ := by
    decide +kernel
  have hsource : 0 < detour.numNodes := by decide
  have hbeyond : detour.numNodes ≤ 5 := by decide
  obtain ⟨r, hr, _, hall⟩ := (deltaStep_isDistance detour 0 1).1 hsource
  rw [hrun] at hr
  cases hr
  refine ⟨hsource, hrun, ?_, ?_, hbeyond, (deltaStep_isDistance detour 5 1).2 hbeyond⟩
  · obtain ⟨d, hd, hdist⟩ := hall 1 (by decide)
    cases hd
    exact hdist
  · obtain ⟨d, hd, hdist⟩ := hall 3 (by decide)
    cases hd
    exact hdist

end SparseGraph.ShortestPath
