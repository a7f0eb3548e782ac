import SparseGraph.Proofs.ShortestPath.Buffers
import SparseGraph.Proofs.ShortestPath.CompleteRuns
import SparseGraph.Proofs.ShortestPath.Confluence

namespace SparseGraph.ShortestPath

/-!
# Every item is accounted for

The items that a run takes are its source and what is produced. Each of them is either stale or expands
its vertex, every vertex that is reached is expanded at its distance, and with buckets of width 1 nothing
else is.

* `takenItems`, `wholeRun`, `visited` — a run from a source: its items, as one drain, and its visits;
* `takenItems_perm`, `exhausts_takenItems` — every item is taken, so the run goes on to the end;
* `length_expanded`, `length_reached_le` — items are stale or expand their vertices, and vertices are
  reached by being expanded;
* `distance_eq_of_mem_expandedItems`, `length_expanded_eq` — buckets of width 1;
* `size_produced_le` — what is produced is paid for by distance;
* `run_accounts_items` — what the counts of a run amount to.
-/

variable {g : Graph} {source shift : Nat} {distances : Array Nat}

/-! ### The items of a run -/

/-- The items that a run from `source` takes, in order. -/
def takenItems (g : Graph) (source shift : Nat) : List Item :=
  (Progress.start shift source (initialDistances g.numNodes source)).taken g

/-- The whole run as one drain. -/
def wholeRun (g : Graph) (source shift : Nat) : Sweep :=
  drain g (initialDistances g.numNodes source) (takenItems g source shift)

/-- The visits of a run: the items of its drains, each with the distance that stands at its vertex
    then. -/
def visited (g : Graph) (source shift : Nat) : List (Item × Nat) :=
  (deltaDrains g source shift).flatMap fun d => recorded g d.distances d.items

theorem visited_eq (g : Graph) (source shift : Nat) :
    visited g source shift = visitsFrom g source (takenItems g source shift) :=
  (Progress.recorded_taken g _).symm

theorem map_fst_visited (g : Graph) (source shift : Nat) :
    (visited g source shift).map Prod.fst = takenItems g source shift := by
  rw [visited_eq, map_fst_visitsFrom]

/-- **Every item is taken once:** the source, and what is produced. -/
theorem takenItems_perm (g : Graph) (source shift : Nat) :
    (takenItems g source shift).Perm (⟨source, 0⟩ :: (wholeRun g source shift).produced.toList) :=
  Progress.taken_perm g (.start shift source (initialDistances g.numNodes source))

/-- The sizes of the buckets that are drained add up to the number of items. -/
theorem total_length_items (g : Graph) (source shift : Nat) :
    total ((deltaDrains g source shift).map fun d => d.items.length) =
      (takenItems g source shift).length := by
  unfold takenItems Progress.taken
  rw [List.flatMap_def, length_flatten_eq_total, List.map_map]
  rfl

theorem length_takenItems (g : Graph) (source shift : Nat) :
    (takenItems g source shift).length = (wholeRun g source shift).produced.size + 1 := by
  rw [(takenItems_perm g source shift).length_eq, List.length_cons, Array.length_toList]

/-- At the end of the run nothing waits. -/
theorem relaxing_wholeRun (g : Graph) (source shift : Nat) :
    Relaxing g source (wholeRun g source shift).distances fun _ => False := by
  have inv := Progress.relaxing_finish (Progress.relaxing_start g source shift)
  rw [(Progress.finish_eq_drain g _).1] at inv
  exact inv

/-- **A run goes on until nothing waits.** -/
theorem exhausts_takenItems (g : Graph) (source shift : Nat) :
    Exhausts g source (takenItems g source shift) :=
  ⟨takenItems_perm g source shift, relaxing_wholeRun g source shift⟩

/-! ### Vertices that are reached -/

/-- The vertices at a finite distance. -/
def reached (distances : Array Nat) : List Nat :=
  (List.range distances.size).filter fun v => distances.getD v 0 < infinity

theorem nodup_reached : (reached distances).Nodup :=
  List.nodup_range.filter _

theorem mem_reached {v : Nat} :
    v ∈ reached distances ↔ v < distances.size ∧ distances.getD v 0 < infinity := by
  unfold reached
  rw [List.mem_filter, List.mem_range, decide_eq_true_iff]

/-- The visits of items that are not stale. -/
def fresh (g : Graph) (source shift : Nat) : List (Item × Nat) :=
  (visited g source shift).filter fun i => !isStale i

theorem map_fst_fresh (g : Graph) (source shift : Nat) :
    (fresh g source shift).map Prod.fst = expandedItems g source (takenItems g source shift) := by
  unfold fresh expandedItems
  rw [visited_eq]

/-- The vertices whose arcs are relaxed in a run, as often as they are. -/
def expanded (g : Graph) (source shift : Nat) : List Nat :=
  (fresh g source shift).map fun i => i.1.vertex

theorem expanded_eq (g : Graph) (source shift : Nat) :
    expanded g source shift =
      (expandedItems g source (takenItems g source shift)).map Item.vertex := by
  unfold expanded
  rw [← map_fst_fresh, List.map_map]
  rfl

/-- Each vertex that is reached is expanded. -/
theorem mem_expanded_of_mem_reached {v : Nat}
    (hv : v ∈ reached (wholeRun g source shift).distances) : v ∈ expanded g source shift := by
  obtain ⟨hlt, hfinite⟩ := mem_reached.1 hv
  rw [(relaxing_wholeRun g source shift).size_eq] at hlt
  rw [expanded_eq]
  exact List.mem_map_of_mem ((exhausts_takenItems g source shift).mem_expandedItems hlt hfinite)

/-- **The count of stale items** is that of all visits for which a better distance is recorded. -/
theorem stale_wholeRun (g : Graph) (source shift : Nat) :
    (wholeRun g source shift).stale = (visited g source shift).countP isStale := by
  rw [visited_eq]
  exact stale_drain g (initialDistances g.numNodes source) (takenItems g source shift)

/-- A visit finds its item to be stale, or expands its vertex. -/
theorem length_expanded (g : Graph) (source shift : Nat) :
    (wholeRun g source shift).stale + (expanded g source shift).length =
      (wholeRun g source shift).produced.size + 1 := by
  rw [stale_wholeRun, ← length_takenItems, ← map_fst_visited, List.length_map,
    List.length_eq_countP_add_countP isStale, expanded, List.length_map, fresh,
    ← List.countP_eq_length_filter]
  simp only [Bool.not_eq_true, Bool.decide_eq_false]

/-- **No more vertices are reached than expanded.** -/
theorem length_reached_le (g : Graph) (source shift : Nat) :
    (reached (wholeRun g source shift).distances).length ≤ (expanded g source shift).length :=
  -- A vertex may be expanded several times, but it is listed once as reached.
  (List.subperm_of_subset nodup_reached fun _ => mem_expanded_of_mem_reached).length_le

/-- The source is reached. -/
theorem length_reached_pos (hsource : source < g.numNodes) (shift : Nat) :
    0 < (reached (wholeRun g source shift).distances).length := by
  have inv := relaxing_wholeRun g source shift
  refine List.length_pos_of_mem (mem_reached.2 ⟨?_, ?_⟩ : source ∈ _)
  · rw [inv.size_eq]
    exact hsource
  · rw [inv.source_eq]
    decide

/-! ### Buckets for single distances -/

/-- With buckets of width 1 each item that is not stale is at the final distance of its vertex. -/
theorem distance_eq_of_mem_expandedItems (hsource : source < g.numNodes) {i : Item}
    (hi : i ∈ expandedItems g source (takenItems g source 0)) :
    i.distance = (wholeRun g source 0).distances.getD i.vertex 0 := by
  obtain ⟨stands, hvisit, hfresh⟩ := mem_expandedItems_iff.1 hi
  have hv := (exhausts_takenItems g source 0).vertex_lt hsource
    ((expandedItems_sublist g source (takenItems g source 0)).subset hi)
  rw [← visited_eq] at hvisit
  obtain ⟨d, hd, hrecorded⟩ := List.mem_flatMap.1 hvisit
  obtain ⟨p, q, hdrain, inv⟩ :=
    Progress.exists_drain?_of_mem_drains (Progress.relaxing_start g source 0) hd
  obtain ⟨_, hpending, _, hbucket, _⟩ := Progress.exists_waits_of_drain? hdrain
  have hitem : i ∈ d.items := by
    rw [← map_fst_recorded g d.distances d.items]
    exact List.mem_map_of_mem hrecorded
  have hstands : stands ≤ p.distances.getD i.vertex 0 := by
    rw [← (Progress.of_drain? hdrain).1]
    exact (getD_le_of_mem_recorded hrecorded).2
  refine inv.distance_eq_of_nearest (relaxing_wholeRun g source 0) hv ((hpending i).2 (.inl hitem))
    (fun j hj => ?_) (Nat.le_trans hfresh hstands)
  -- Nothing waits in a lesser bucket, and each distance has a bucket of its own.
  have hle := Progress.bucket_le_of_mem_pending hdrain j hj
  rwa [← hbucket i hitem, bucketOf_zero, bucketOf_zero] at hle

/-- **With buckets of width 1** just the vertices that are reached are expanded, each once. -/
theorem length_expanded_eq (hsource : source < g.numNodes) :
    (expanded g source 0).length = (reached (wholeRun g source 0).distances).length := by
  have hrun := exhausts_takenItems g source 0
  have hfinal := fun i => distance_eq_of_mem_expandedItems (i := i) hsource
  have hnodup := hrun.nodup_vertices hfinal
  rw [← expanded_eq] at hnodup
  apply Nat.le_antisymm _ (length_reached_le g source 0)
  refine (List.subperm_of_subset hnodup fun v hv => ?_).length_le
  rw [expanded_eq] at hv
  obtain ⟨i, hi, rfl⟩ := List.mem_map.1 hv
  have hmem := (expandedItems_sublist g source (takenItems g source 0)).subset hi
  rw [mem_reached, (relaxing_wholeRun g source 0).size_eq,
    ← distance_eq_of_mem_expandedItems hsource hi]
  exact ⟨hrun.vertex_lt hsource hmem, hrun.distance_lt hmem⟩

/-! ### How much is produced -/

/-- **Each item that is produced has cost a unit of distance,** of which there are `infinity` for each
    vertex but the source. -/
theorem size_produced_le (hsource : source < g.numNodes) (shift : Nat) :
    (wholeRun g source shift).produced.size ≤ (g.numNodes - 1) * infinity := by
  have hdrain := potential_drain g (initialDistances g.numNodes source) (takenItems g source shift)
  have hmeasure : total (initialDistances g.numNodes source).toList + 1 =
      (g.numNodes - 1) * infinity + 1 :=
    measure_initial hsource
  unfold Sweep.potential at hdrain
  unfold wholeRun
  omega

/-- Words count vertices and distances, so a count of twice their width is enough. -/
theorem mul_infinity_le_maxLong (hn : g.numNodes ≤ Text.maxWord) :
    (g.numNodes - 1) * infinity ≤ Text.maxLong := by
  have hle : (g.numNodes - 1) * infinity ≤ Text.maxWord * Text.maxWord :=
    Nat.mul_le_mul_right _ (Nat.le_trans (Nat.sub_le _ 1) hn)
  exact Nat.le_trans hle (by decide)

/-- Each drain takes an item at least. -/
theorem length_drains_le (g : Graph) (source shift : Nat) :
    (deltaDrains g source shift).length ≤ (takenItems g source shift).length := by
  have hpos : ∀ n ∈ (deltaDrains g source shift).map fun d => d.items.length, 1 ≤ n := by
    intro n hn
    obtain ⟨d, hd, rfl⟩ := List.mem_map.1 hn
    obtain ⟨p, q, hdrain, _⟩ :=
      Progress.exists_drain?_of_mem_drains (Progress.relaxing_start g source shift) hd
    obtain ⟨i, hi, _⟩ := Progress.exists_mem_items hdrain
    exact List.length_pos_of_mem hi
  have hle := length_le_total hpos
  rw [List.length_map, total_length_items] at hle
  exact hle

/-! ### The counts of a run -/

/-- A run from a vertex, on distances that have been reset for it. -/
theorem State.run_reset (hsource : source < g.numNodes) (shift : Nat) {s : State}
    (hsize : s.distances.size = g.numNodes) :
    (s.reset source).run g source shift =
      .ok (⟨(deltaDrains g source shift).length, (wholeRun g source shift).produced.size,
        (wholeRun g source shift).stale⟩, ⟨(wholeRun g source shift).distances⟩) := by
  have hreset : (s.reset source).distances = initialDistances g.numNodes source := by
    rw [← hsize]
    rfl
  have hzero : (s.reset source).distance? source = some 0 := by
    unfold distance?
    rw [hreset, getElem?_eq_some_getD (by rwa [size_initialDistances]), getD_initialDistances_source]
  obtain ⟨hdistances, htally⟩ := Progress.finish_eq_drain g
    (.start shift source (initialDistances g.numNodes source))
  rw [run_eq_ok_iff, hreset, htally, hdistances]
  refine ⟨hsource, size_initialDistances _ _, hzero, ?_, rfl⟩
  simp only [Progress.start, Nat.zero_add]
  rfl

/-- **Every item is accounted for.** A run from a vertex, on distances that have been reset for it,
    comes to its end and counts the same in whatever pieces its buckets are taken. The buckets that are
    drained hold one item more than there are relaxations, and the items for which a better distance is
    recorded are counted as stale. There are no more drains than items, no more stale items than
    relaxations, and no more relaxations than there is distance to lose, which 64 bits can count. The
    other items are at least as many as the vertices that are reached, and with buckets of width 1 just
    as many. -/
theorem run_accounts_items (g : Graph) (hn : g.numNodes ≤ Text.maxWord) {source : Nat}
    (hsource : source < g.numNodes) (shift : Nat) {s : State}
    (hsize : s.distances.size = g.numNodes) :
    ∃ tally t, (s.reset source).run g source shift = .ok (tally, t) ∧
      (∀ cut : Progress shift → List Item → List (List Item),
        (∀ p items, (cut p items).flatten = items) →
        (∃ p, (Progress.start shift source (s.reset source).distances).Finishes g cut p) ∧
        ∀ p, (Progress.start shift source (s.reset source).distances).Finishes g cut p →
          p.tally = tally ∧ p.distances = t.distances) ∧
      tally.rounds = (deltaDrains g source shift).length ∧
      total ((deltaDrains g source shift).map fun d => d.items.length) = tally.relaxations + 1 ∧
      tally.stale = (visited g source shift).countP isStale ∧
      tally.rounds ≤ tally.relaxations + 1 ∧
      tally.stale ≤ tally.relaxations ∧
      tally.relaxations ≤ (g.numNodes - 1) * infinity ∧
      (g.numNodes - 1) * infinity ≤ Text.maxLong ∧
      (reached t.distances).length ≤ tally.relaxations + 1 - tally.stale ∧
      (shift = 0 → (reached t.distances).length = tally.relaxations + 1 - tally.stale) := by
  have hrun := s.run_reset hsource shift hsize
  have htaken := length_takenItems g source shift
  have hexpanded := length_expanded g source shift
  have hreached := length_reached_le g source shift
  refine ⟨_, _, hrun, ?_, rfl, ?_, stale_wholeRun g source shift, ?_, ?_,
    size_produced_le hsource shift, mul_infinity_le_maxLong hn, ?_, ?_⟩
  · intro cut hcut
    obtain ⟨_, _, _, htally, hdistances⟩ := State.run_eq_ok_iff.1 hrun
    refine ⟨⟨_, (Progress.finishes_iff hcut).2 rfl⟩, fun p hp => ?_⟩
    rw [(Progress.finishes_iff hcut).1 hp]
    exact ⟨htally.symm, (congrArg State.distances hdistances).symm⟩
  · rw [total_length_items, htaken]
  · dsimp only
    rw [← htaken]
    exact length_drains_le g source shift
  · have hpos := length_reached_pos hsource shift
    dsimp only
    omega
  · dsimp only
    omega
  · rintro rfl
    have heq := length_expanded_eq hsource
    dsimp only
    omega

/-- The general theorem at the detour. With buckets of width 1 four items are taken, one of them is
    stale, and three vertices are reached. With buckets of width 8 there are two items in the second
    bucket, and a run that takes each of them as a piece of its own counts three relaxations. -/
theorem run_accounts_items_detour :
    detour.numNodes ≤ Text.maxWord ∧ 0 < detour.numNodes ∧
      (State.new 5).distances.size = detour.numNodes ∧
      (deltaDrains detour 0 0).length = 4 ∧
      total ((deltaDrains detour 0 0).map fun d => d.items.length) = 4 ∧
      (visited detour 0 0).countP isStale = 1 ∧
      (reached #[0, 2, 1, infinity, infinity]).length = 3 ∧
      ((State.new 5).reset 0).run detour 0 0 =
        .ok (⟨4, 3, 1⟩, ⟨#[0, 2, 1, infinity, infinity]⟩) ∧
      (∃ p, (Progress.start 0 0 ((State.new 5).reset 0).distances).Finishes detour
        (fun _ items => items.map fun i => [i]) p ∧
        p.tally = ⟨4, 3, 1⟩ ∧ p.distances = #[0, 2, 1, infinity, infinity]) ∧
      (deltaDrains detour 0 3).map (fun d => d.items) = [[⟨0, 0⟩], [⟨1, 4⟩, ⟨2, 1⟩], [⟨1, 2⟩]] ∧
      ∃ p, (Progress.start 3 0 ((State.new 5).reset 0).distances).Finishes detour
        (fun _ items => items.map fun i => [i]) p ∧
        p.tally = ⟨3, 3, 0⟩ ∧ p.distances = #[0, 2, 1, infinity, infinity] := by
  have hn : detour.numNodes ≤ Text.maxWord := by decide
  have hsource : 0 < detour.numNodes := by decide
  have hsize : (State.new 5).distances.size = detour.numNodes := by decide
  have hsingle : ∀ items : List Item, (items.map fun i => [i]).flatten = items :=
    List.flatMap_singleton'
  have hrun : ((State.new 5).reset 0).run detour 0 0 =
      .ok (⟨4, 3, 1⟩, ⟨#[0, 2, 1, infinity, infinity]⟩) := by decide +kernel
  have hwide : ((State.new 5).reset 0).run detour 0 3 =
      .ok (⟨3, 3, 0⟩, ⟨#[0, 2, 1, infinity, infinity]⟩) := by decide +kernel
  obtain ⟨tally, t, hok, hpieces, hrounds, hsum, hstale, _, _, _, _, _, hreached⟩ :=
    run_accounts_items detour hn hsource 0 hsize
  rw [hrun] at hok
  cases hok
  obtain ⟨⟨p, hp⟩, hcounts⟩ := hpieces _ fun _ => hsingle
  obtain ⟨tally, t, hok, hpieces, _⟩ := run_accounts_items detour hn hsource 3 hsize
  rw [hwide] at hok
  cases hok
  obtain ⟨⟨q, hq⟩, hcounts'⟩ := hpieces _ fun _ => hsingle
  exact ⟨hn, hsource, hsize, hrounds.symm, hsum, hstale.symm, hreached rfl, hrun,
    ⟨p, hp, hcounts p hp⟩, by decide +kernel, q, hq, hcounts' q hq⟩

end SparseGraph.ShortestPath
