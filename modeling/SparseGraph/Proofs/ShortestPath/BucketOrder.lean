import SparseGraph.Proofs.ShortestPath.DeltaStepping

namespace SparseGraph.ShortestPath

/-!
# Buckets settle distances in order

Relaxing an arc leads no closer, so a drain refills its own bucket or greater ones. When a bucket is
drained nothing waits in lesser buckets any more, and the distances that belong there are settled.

* `deltaDrains`, `afterDrains` — the drains of a run, and the distances that drains lead to;
* `Progress.bucket_le_of_drain?` — after a drain everything waits in its bucket or beyond;
* `Progress.getD_eq_of_drain?` — distances in lesser buckets than that of a drain are the true ones;
* `Progress.vertex_ne_of_drain?` — and their vertices are not brought closer by the drain;
* `deltaDrains_settle` — both for all drains of a run, from the first one on.
-/

/-- The drains of a run from `source`, in order. -/
def deltaDrains (g : Graph) (source shift : Nat) : List Drain :=
  (Progress.start shift source (initialDistances g.numNodes source)).drains g

/-- The distances after buckets with the items of these drains have been drained in order. -/
def afterDrains (g : Graph) (distances : Array Nat) (drains : List Drain) : Array Nat :=
  drains.foldl (fun distances d => (drain g distances d.items).distances) distances

namespace Progress

variable {g : Graph} {source shift : Nat} {p q : Progress shift} {d : Drain}

/-! ### Where items wait -/

/-- Before a drain everything waits in its bucket or beyond: the least bucket is taken. -/
theorem bucket_le_of_mem_pending (h : p.drain? g = some (d, q)) :
    ∀ i ∈ p.pending, d.bucket ≤ bucketOf shift i.distance := by
  obtain ⟨rest, hbefore, _, hitems, hrest⟩ := exists_waits_of_drain? h
  intro i hi
  rcases (hbefore i).1 hi with hi | hi
  · exact Nat.le_of_eq (hitems i hi).symm
  · exact Nat.le_of_lt (hrest i hi)

/-- **After a drain** everything waits in its bucket or beyond, since arcs lead no closer. -/
theorem bucket_le_of_drain? (h : p.drain? g = some (d, q))
    (hle : ∀ v, p.distances.getD v 0 ≤ infinity) :
    ∀ i ∈ q.pending, d.bucket ≤ bucketOf shift i.distance := by
  obtain ⟨rest, _, hafter, hitems, hrest⟩ := exists_waits_of_drain? h
  intro i hi
  rcases (hafter i).1 hi with hi | hi
  · exact Nat.le_of_lt (hrest i hi)
  · obtain ⟨item, hitem, hdist⟩ :=
      (visits_drain g p.distances d.items).exists_le_of_filed hle i hi
    rw [← hitems item hitem]
    exact bucketOf_mono shift hdist

/-- A drain takes out something that waits. -/
theorem exists_mem_items (h : p.drain? g = some (d, q)) : ∃ i, i ∈ d.items ∧ i ∈ p.pending := by
  obtain ⟨_, _, items, rest, hpop, hitems, _⟩ := of_drain? h
  have hpos := (Worklist.size_popMin? hpop).1
  have hmem : items[0] ∈ items := Array.getElem_mem hpos
  refine ⟨items[0], ?_, (Worklist.mem_popMin? hpop).2 (.inl hmem)⟩
  rw [← hitems]
  exact Array.mem_toList_iff.2 hmem

/-! ### The drains of a run -/

theorem drains_of_none (h : p.drain? g = none) : p.drains g = [] := by
  rw [drains]
  split
  next => rfl
  next heq => rw [h] at heq; cases heq

theorem drains_of_some (h : p.drain? g = some (d, q)) : p.drains g = d :: q.drains g := by
  rw [drains]
  split
  next heq => rw [h] at heq; cases heq
  next heq =>
    rw [h] at heq
    cases heq
    rfl

/-- The first drain of a run, and the run that is left after it. -/
theorem exists_drain?_of_drains_eq_cons {later : List Drain} (hrun : p.drains g = d :: later) :
    ∃ q, p.drain? g = some (d, q) ∧ q.drains g = later := by
  cases h : p.drain? g with
  | none =>
    rw [drains_of_none h] at hrun
    cases hrun
  | some step =>
    rw [drains_of_some h] at hrun
    obtain ⟨rfl, hrest⟩ := List.cons.inj hrun
    exact ⟨step.2, rfl, hrest⟩

/-- Each drain of a run begins where the invariant holds. -/
theorem exists_drain?_of_mem_drains (inv : Relaxing g source p.distances (· ∈ p.pending))
    (hd : d ∈ p.drains g) :
    ∃ before after : Progress shift, before.drain? g = some (d, after) ∧
      Relaxing g source before.distances (· ∈ before.pending) := by
  fun_induction drains g p with
  | case1 p h => exact absurd hd List.not_mem_nil
  | case2 p first next h ih =>
    rcases List.mem_cons.1 hd with rfl | hd
    · exact ⟨p, next, h, inv⟩
    · exact ih (relaxing_drain? h inv) hd

/-- The drains of a run do not go below the bucket beyond which everything waits. -/
theorem le_bucket_of_mem_drains {bucket : Nat}
    (inv : Relaxing g source p.distances (· ∈ p.pending))
    (hle : ∀ i ∈ p.pending, bucket ≤ bucketOf shift i.distance) (hd : d ∈ p.drains g) :
    bucket ≤ d.bucket := by
  fun_induction drains g p generalizing bucket with
  | case1 p h => exact absurd hd List.not_mem_nil
  | case2 p first next h ih =>
    have hfirst : bucket ≤ first.bucket := by
      obtain ⟨i, hitem, hpending⟩ := exists_mem_items h
      obtain ⟨_, _, _, hitems, _⟩ := exists_waits_of_drain? h
      rw [← hitems i hitem]
      exact hle i hpending
    rcases List.mem_cons.1 hd with rfl | hd
    · exact hfirst
    · have hnext := bucket_le_of_drain? h inv.le_infinity
      exact Nat.le_trans hfirst (ih (relaxing_drain? h inv) hnext hd)

/-- **Buckets come in order.** A run never goes back to a lesser bucket. -/
theorem pairwise_bucket_drains (inv : Relaxing g source p.distances (· ∈ p.pending)) :
    (p.drains g).Pairwise fun first second => first.bucket ≤ second.bucket := by
  fun_induction drains g p with
  | case1 p h => exact .nil
  | case2 p first next h ih =>
    have hnext := relaxing_drain? h inv
    refine List.pairwise_cons.2 ⟨fun second hsecond => ?_, ih hnext⟩
    exact le_bucket_of_mem_drains hnext (bucket_le_of_drain? h inv.le_infinity) hsecond

/-- The buckets of later drains are not less than the bucket of a drain. -/
theorem bucket_le_of_later {d' : Drain} {earlier later : List Drain}
    (inv : Relaxing g source p.distances (· ∈ p.pending))
    (hrun : p.drains g = earlier ++ d :: later) (hd' : d' ∈ d :: later) :
    d.bucket ≤ d'.bucket := by
  have hpairwise := pairwise_bucket_drains inv
  rw [hrun, List.pairwise_append, List.pairwise_cons] at hpairwise
  rcases List.mem_cons.1 hd' with rfl | hlater
  · exact Nat.le_refl _
  · exact hpairwise.2.1.1 d' hlater

/-- A run ends with the distances that its drains lead to. -/
theorem distances_finish (g : Graph) (p : Progress shift) :
    (p.finish g).distances = afterDrains g p.distances (p.drains g) := by
  fun_induction finish g p with
  | case1 p h =>
    rw [drains_of_none h]
    rfl
  | case2 p d q h ih =>
    rw [ih, drains_of_some h, (of_drain? h).2.1]
    rfl

/-- A drain begins with the distances that the drains before it have led to. -/
theorem distances_of_drains_eq {earlier later : List Drain}
    (hrun : p.drains g = earlier ++ d :: later) :
    d.distances = afterDrains g p.distances earlier := by
  induction earlier generalizing p with
  | nil =>
    obtain ⟨q, h, _⟩ := exists_drain?_of_drains_eq_cons hrun
    exact (of_drain? h).1
  | cons first earlier ih =>
    obtain ⟨q, h, hrest⟩ := exists_drain?_of_drains_eq_cons hrun
    rw [ih hrest, (of_drain? h).2.1]
    rfl

/-- As many rounds are counted as there are drains. -/
theorem rounds_finish (g : Graph) (p : Progress shift) :
    (p.finish g).tally.rounds = p.tally.rounds + (p.drains g).length := by
  fun_induction finish g p with
  | case1 p h => rw [drains_of_none h, List.length_nil, Nat.add_zero]
  | case2 p d q h ih =>
    rw [ih, drains_of_some h, List.length_cons, tally_of_drain? h]
    dsimp only
    omega

/-! ### Settled distances -/

/-- **Distances in lesser buckets are settled** when a bucket is drained. -/
theorem getD_eq_of_drain? (h : p.drain? g = some (d, q))
    (inv : Relaxing g source p.distances (· ∈ p.pending)) {v dist : Nat} (hv : v < g.numNodes)
    (hdist : IsDistance g source v dist) (hbucket : bucketOf shift dist < d.bucket) :
    p.distances.getD v 0 = dist :=
  inv.getD_eq_of_near (fun c => bucketOf shift c < d.bucket)
    (fun hcd hd => Nat.lt_of_le_of_lt (bucketOf_mono shift hcd) hd)
    (fun i hi => Nat.not_lt.2 (bucket_le_of_mem_pending h i hi)) hv hdist hbucket

/-- **Settled vertices are left alone:** a drain brings none of them closer. -/
theorem vertex_ne_of_drain? (h : p.drain? g = some (d, q))
    (inv : Relaxing g source p.distances (· ∈ p.pending)) {v dist : Nat} (hv : v < g.numNodes)
    (hdist : IsDistance g source v dist) (hbucket : bucketOf shift dist < d.bucket) :
    ∀ i ∈ (drain g d.distances d.items).produced, i.vertex ≠ v := by
  obtain ⟨hbefore, hafter, _⟩ := of_drain? h
  rw [hbefore]
  intro i hi hvertex
  have hmem : i ∈ (drain g p.distances d.items).produced.toList := Array.mem_toList_iff.2 hi
  -- What is filed is closer than before, but nothing gets closer than the true distance.
  have hlow := (visits_drain g p.distances d.items).lowering
  have hlt := hlow.lt_of_filed i hmem
  have hle := hlow.le_of_filed i hmem
  rw [hvertex] at hlt hle
  rw [getD_eq_of_drain? h inv hv hdist hbucket] at hlt
  have hge := (relaxing_drain? h inv).le_getD hv hdist
  rw [hafter] at hge
  omega

end Progress

/-- **Bucket order settles distances.** In a run from a vertex, whatever the width of the buckets,
    their numbers never decrease. When a bucket is drained, each vertex whose true distance belongs
    in a lesser one stands at that distance, and so it does in all later drains, none of which
    brings it closer. The run is the one of delta stepping: each drain begins where the drains
    before it have led, and all of them lead to its result. -/
theorem deltaDrains_settle (g : Graph) (source shift : Nat) (hsource : source < g.numNodes) :
    (∃ r, deltaStep g source shift = .ok r ∧
      r.tally.rounds = (deltaDrains g source shift).length ∧
      r.distances = afterDrains g (initialDistances g.numNodes source)
        (deltaDrains g source shift)) ∧
    ((deltaDrains g source shift).map Drain.bucket).Pairwise (· ≤ ·) ∧
    ∀ earlier d later, deltaDrains g source shift = earlier ++ d :: later →
      d.distances = afterDrains g (initialDistances g.numNodes source) earlier ∧
      ∀ v < g.numNodes, ∀ dist, IsDistance g source v dist → bucketOf shift dist < d.bucket →
        ∀ d' ∈ d :: later, d'.distances[v]? = some dist ∧
          ∀ i ∈ (drain g d'.distances d'.items).produced, i.vertex ≠ v := by
  have inv := Progress.relaxing_start g source shift
  refine ⟨?_, List.pairwise_map.2 (Progress.pairwise_bucket_drains inv), ?_⟩
  · unfold deltaStep
    rw [if_pos hsource]
    refine ⟨_, rfl, ?_, Progress.distances_finish g _⟩
    rw [Progress.rounds_finish]
    exact Nat.zero_add _
  · intro earlier d later hrun
    refine ⟨Progress.distances_of_drains_eq hrun, ?_⟩
    intro v hv dist hdist hbucket d' hd'
    -- The bucket of a later drain is not less, so the vertex is settled there as well.
    have hlt : bucketOf shift dist < d'.bucket :=
      Nat.lt_of_lt_of_le hbucket (Progress.bucket_le_of_later inv hrun hd')
    have hmem : d' ∈ deltaDrains g source shift := by
      rw [hrun]
      exact List.mem_append_right earlier hd'
    obtain ⟨p, q, hdrain, hinv⟩ := Progress.exists_drain?_of_mem_drains inv hmem
    refine ⟨?_, Progress.vertex_ne_of_drain? hdrain hinv hv hdist hlt⟩
    rw [(Progress.of_drain? hdrain).1, getElem?_eq_some_getD (by rw [hinv.size_eq]; exact hv),
      Progress.getD_eq_of_drain? hdrain hinv hv hdist hlt]

/-- The general theorem at the detour: bucket 0 is refilled and drained twice, and vertex 2, which
    belongs there, is left alone from then on. -/
theorem deltaDrains_settle_detour :
    0 < detour.numNodes ∧
      deltaDrains detour 0 1 = [
        ⟨0, [⟨0, 0⟩], #[0, infinity, infinity, infinity, infinity]⟩,
        ⟨0, [⟨2, 1⟩], #[0, 4, 1, infinity, infinity]⟩,
        ⟨1, [⟨1, 2⟩], #[0, 2, 1, infinity, infinity]⟩,
        ⟨2, [⟨1, 4⟩], #[0, 2, 1, infinity, infinity]⟩] ∧
      ([0, 0, 1, 2] : List Nat).Pairwise (· ≤ ·) ∧ IsDistance detour 0 2 1 ∧
      ∀ i ∈ (drain detour #[0, 2, 1, infinity, infinity] [⟨1, 4⟩]).produced, i.vertex ≠ 2 := by
  have hsource : 0 < detour.numNodes := by decide
  have hrun : deltaDrains detour 0 1 = [
      ⟨0, [⟨0, 0⟩], #[0, infinity, infinity, infinity, infinity]⟩,
      ⟨0, [⟨2, 1⟩], #[0, 4, 1, infinity, infinity]⟩,
      ⟨1, [⟨1, 2⟩], #[0, 2, 1, infinity, infinity]⟩,
      ⟨2, [⟨1, 4⟩], #[0, 2, 1, infinity, infinity]⟩] := by
    decide +kernel
  have hdist : IsDistance detour 0 2 1 := by
    obtain ⟨r, hr, inv⟩ := exists_deltaStep hsource 1
    have hresult : deltaStep detour 0 1 = .ok ⟨#[0, 2, 1, infinity, infinity], ⟨4, 3, 1⟩⟩ := by
      decide +kernel
    rw [hresult] at hr
    cases hr
    exact inv.isDistance (fun _ => not_false) (by decide)
  obtain ⟨_, hbuckets, hsettled⟩ := deltaDrains_settle detour 0 1 hsource
  rw [hrun] at hbuckets
  refine ⟨hsource, hrun, hbuckets, hdist, ?_⟩
  -- Vertex 2 belongs in bucket 0, so it is settled from the first drain of bucket 1 on.
  exact ((hsettled [_, _] _ [_] hrun).2 2 (by decide) 1 hdist (by decide) _
    (List.mem_cons_of_mem _ List.mem_cons_self)).2

end SparseGraph.ShortestPath
