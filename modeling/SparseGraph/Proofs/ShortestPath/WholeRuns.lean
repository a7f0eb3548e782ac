import SparseGraph.Proofs.Backlog
import SparseGraph.Proofs.ShortestPath.BucketOrder

namespace SparseGraph.ShortestPath

/-!
# A run as one drain

A run visits the items of all its drains one after another, as one drain of all of them would. So its
counts are those of one drain: each item that was produced is taken once, no two items are alike, and
those are counted as stale that find a better distance at their vertices.

* `drain_append` — a drain in two parts;
* `recorded`, `stale_drain` — the distances that items find at their vertices, and the items that are
  stale by them;
* `distinct_drain` — no item is produced twice;
* `Progress.finish_eq_drain`, `Progress.taken_perm` — a run as one drain of all the items that it takes,
  which are those that wait at first and those that are produced;
* `Progress.recorded_taken` — the visits of a run are those of its drains.
-/

variable {g : Graph} {shift : Nat} {distances : Array Nat} {items : List Item}

/-! ### Drains in parts -/

/-- What is done after another part of a drain. -/
def Sweep.after (first second : Sweep) : Sweep :=
  ⟨second.distances, first.produced ++ second.produced, first.stale + second.stale⟩

namespace Sweep

theorem relax_after (first s : Sweep) (target candidate : Nat) :
    (after first s).relax target candidate = after first (s.relax target candidate) := by
  unfold relax after
  dsimp only
  split
  next => simp only [Array.append_push]
  next => rfl

theorem relaxArcs_after (first s : Sweep) (distance : Nat) (arcs : List Arc) :
    (after first s).relaxArcs distance arcs = after first (s.relaxArcs distance arcs) := by
  induction arcs generalizing s with
  | nil => rfl
  | cons a arcs ih =>
    show relaxArcs ((after first s).relax _ _) distance arcs = _
    rw [relax_after, ih]
    rfl

theorem visit_after (first s : Sweep) (item : Item) :
    (after first s).visit g item = after first (s.visit g item) := by
  show (if s.distances.getD item.vertex 0 < item.distance then _ else _) = _
  unfold visit
  dsimp only
  split
  next => rfl
  next => exact relaxArcs_after first s _ _

theorem foldl_visit_after (first s : Sweep) (items : List Item) :
    items.foldl (visit g) (after first s) = after first (items.foldl (visit g) s) := by
  induction items generalizing s with
  | nil => rfl
  | cons item items ih => rw [List.foldl_cons, List.foldl_cons, visit_after, ih]

end Sweep

/-- **A drain in two parts:** the second one begins with the distances that the first one leads to. -/
theorem drain_append (g : Graph) (distances : Array Nat) (first second : List Item) :
    drain g distances (first ++ second) =
      .after (drain g distances first) (drain g (drain g distances first).distances second) := by
  -- The sweep after the first part is that sweep followed by one that has just begun.
  have hstart : drain g distances first =
      .after (drain g distances first) ⟨(drain g distances first).distances, #[], 0⟩ := by
    simp only [Sweep.after, Array.append_empty, Nat.add_zero]
  unfold drain at hstart ⊢
  rw [List.foldl_append]
  conv_lhs => rw [hstart]
  rw [Sweep.foldl_visit_after]

/-- The first item of a drain, and the others. -/
theorem drain_cons (g : Graph) (distances : Array Nat) (item : Item) (items : List Item) :
    drain g distances (item :: items) =
      .after (drain g distances [item]) (drain g (drain g distances [item]).distances items) :=
  drain_append g distances [item] items

/-! ### Recorded distances -/

/-- Items that are visited one after another, each with the distance that stands at its vertex then. -/
def recorded (g : Graph) : Array Nat → List Item → List (Item × Nat)
  | _, [] => []
  | distances, item :: items =>
    (item, distances.getD item.vertex 0) :: recorded g (drain g distances [item]).distances items

/-- A better distance is recorded than that of the item. -/
def isStale (i : Item × Nat) : Bool :=
  i.2 < i.1.distance

theorem isStale_iff {i : Item × Nat} : isStale i = true ↔ i.2 < i.1.distance :=
  decide_eq_true_iff

theorem isStale_eq_false_iff {i : Item × Nat} : isStale i = false ↔ i.1.distance ≤ i.2 := by
  unfold isStale
  rw [decide_eq_false_iff_not, Nat.not_lt]

theorem map_fst_recorded (g : Graph) (distances : Array Nat) (items : List Item) :
    (recorded g distances items).map Prod.fst = items := by
  induction items generalizing distances with
  | nil => rfl
  | cons item items ih => rw [recorded, List.map_cons, ih]

theorem recorded_append (g : Graph) (distances : Array Nat) (first second : List Item) :
    recorded g distances (first ++ second) =
      recorded g distances first ++ recorded g (drain g distances first).distances second := by
  induction first generalizing distances with
  | nil => rfl
  | cons item first ih =>
    rw [List.cons_append, recorded, recorded, ih, List.cons_append, drain_cons g distances item first]
    rfl

/-- **What is recorded** lies between the distances before and after. -/
theorem getD_le_of_mem_recorded {i : Item × Nat} (h : i ∈ recorded g distances items) :
    (drain g distances items).distances.getD i.1.vertex 0 ≤ i.2 ∧
      i.2 ≤ distances.getD i.1.vertex 0 := by
  induction items generalizing distances with
  | nil => exact absurd h List.not_mem_nil
  | cons item items ih =>
    have hfirst := (visits_drain g distances [item]).lowering
    have hlater := (visits_drain g (drain g distances [item]).distances items).lowering
    rw [drain_cons]
    rcases List.mem_cons.1 h with rfl | h
    · exact ⟨Nat.le_trans (hlater.le _) (hfirst.le _), Nat.le_refl _⟩
    · obtain ⟨hle, hge⟩ := ih h
      exact ⟨hle, Nat.le_trans hge (hfirst.le _)⟩

theorem Sweep.stale_relax (s : Sweep) (target candidate : Nat) :
    (s.relax target candidate).stale = s.stale := by
  unfold relax
  split <;> rfl

theorem Sweep.stale_relaxArcs (s : Sweep) (distance : Nat) (arcs : List Arc) :
    (s.relaxArcs distance arcs).stale = s.stale := by
  induction arcs generalizing s with
  | nil => rfl
  | cons a arcs ih => exact (ih _).trans (stale_relax s _ _)

/-- **The count of stale items** is that of the items for which a better distance is recorded. -/
theorem stale_drain (g : Graph) (distances : Array Nat) (items : List Item) :
    (drain g distances items).stale = (recorded g distances items).countP isStale := by
  induction items generalizing distances with
  | nil => rfl
  | cons item items ih =>
    have hone : (drain g distances [item]).stale =
        if isStale (item, distances.getD item.vertex 0) then 1 else 0 := by
      cases hstale : isStale (item, distances.getD item.vertex 0) with
      | true => rw [drain_of_stale g (isStale_iff.1 hstale), if_pos rfl]
      | false =>
        -- Relaxing arcs counts nothing as stale.
        rw [drain_of_fresh g (isStale_eq_false_iff.1 hstale), Sweep.stale_relaxArcs,
          if_neg Bool.false_ne_true]
    rw [drain_cons, recorded, List.countP_cons, ← ih, Nat.add_comm, ← hone]
    rfl

/-! ### No item is produced twice -/

/-- No item has been produced twice, and none is closer than its vertex. -/
structure Sweep.Distinct (s : Sweep) : Prop where
  nodup : s.produced.toList.Nodup
  le : ∀ i ∈ s.produced.toList, s.distances.getD i.vertex 0 ≤ i.distance

namespace Sweep.Distinct

variable {s : Sweep}

/-- What is produced is closer than anything produced before for its vertex. -/
theorem relax (h : s.Distinct) (target candidate : Nat) : (s.relax target candidate).Distinct := by
  unfold Sweep.relax
  split
  next after hlower =>
    have hlt := (lowerAt?_eq_some_iff.1 hlower).1
    have hlow := Lowering.of_lowerAt? hlower
    constructor
    · rw [Array.toList_push, List.nodup_append_comm, List.singleton_append, List.nodup_cons]
      refine ⟨fun hmem => ?_, h.nodup⟩
      -- Had it been produced before, its vertex would be as close already.
      have hle := h.le _ hmem
      exact absurd hlt (Nat.not_lt.2 hle)
    · intro i hi
      rw [Array.toList_push, List.mem_append] at hi
      rcases hi with hi | hi
      · exact Nat.le_trans (hlow.le _) (h.le i hi)
      · exact hlow.le_of_filed i hi
  next => exact h

theorem relaxArcs (h : s.Distinct) (distance : Nat) (arcs : List Arc) :
    (s.relaxArcs distance arcs).Distinct := by
  induction arcs generalizing s with
  | nil => exact h
  | cons a arcs ih => exact ih (h.relax _ _)

theorem visit (h : s.Distinct) (g : Graph) (item : Item) : (s.visit g item).Distinct := by
  unfold Sweep.visit
  dsimp only
  split
  · exact ⟨h.nodup, h.le⟩
  · exact h.relaxArcs _ _

end Sweep.Distinct

theorem distinct_drain (g : Graph) (distances : Array Nat) (items : List Item) :
    (drain g distances items).Distinct := by
  have main (s : Sweep) (h : s.Distinct) : (items.foldl (Sweep.visit g) s).Distinct := by
    induction items generalizing s with
    | nil => exact h
    | cons item items ih => exact ih _ (h.visit g item)
  exact main _ ⟨List.nodup_nil, fun i hi => absurd hi List.not_mem_nil⟩

/-! ### A run as one drain -/

namespace Progress

variable {p q : Progress shift} {d : Drain}

/-- The items that a run takes, in order. -/
def taken (g : Graph) (p : Progress shift) : List Item :=
  (p.drains g).flatMap Drain.items

theorem taken_of_none (h : p.drain? g = none) : p.taken g = [] := by
  rw [taken, drains_of_none h, List.flatMap_nil]

theorem taken_of_some (h : p.drain? g = some (d, q)) : p.taken g = d.items ++ q.taken g := by
  rw [taken, drains_of_some h, List.flatMap_cons, taken]

/-- **A run is one drain** of all the items that it takes. -/
theorem finish_eq_drain (g : Graph) (p : Progress shift) :
    (p.finish g).distances = (drain g p.distances (p.taken g)).distances ∧
      (p.finish g).tally =
        ⟨p.tally.rounds + (p.drains g).length,
          p.tally.relaxations + (drain g p.distances (p.taken g)).produced.size,
          p.tally.stale + (drain g p.distances (p.taken g)).stale⟩ := by
  fun_induction finish g p with
  | case1 p h =>
    rw [taken_of_none h, drains_of_none h]
    exact ⟨rfl, rfl⟩
  | case2 p d q h ih =>
    obtain ⟨_, hdistances, _⟩ := of_drain? h
    rw [taken_of_some h, drains_of_some h, drain_append, ← hdistances]
    refine ⟨ih.1, ih.2.trans ?_⟩
    rw [tally_of_drain? h]
    simp only [Sweep.after, Array.size_append, List.length_cons, Nat.add_assoc, Nat.add_comm 1]

/-- **Every item is taken:** those that wait at first, and those that are produced. -/
theorem taken_perm (g : Graph) (p : Progress shift) :
    (p.taken g).Perm (p.pending.items ++ (drain g p.distances (p.taken g)).produced.toList) := by
  fun_induction finish g p with
  | case1 p h =>
    have hnone : p.pending.popMin? = none := Option.map_eq_none_iff.1 h
    rw [taken_of_none h, Worklist.items, Worklist.buckets_of_popMin?_eq_none hnone]
    exact .nil
  | case2 p d q h ih =>
    obtain ⟨_, hdistances, items, rest, hpop, hitems, hpending⟩ := of_drain? h
    have hafter : q.pending.items.Perm
        (rest.items ++ (drain g p.distances d.items).produced.toList) := by
      have hsame : Represents rest ⟨rest.items⟩ := fun _ => rfl
      rw [hpending]
      exact (hsame.extend _).perm
    -- The items of the bucket are taken first, and the others with what the bucket has produced.
    rw [taken_of_some h, Worklist.items_of_popMin? hpop, hitems, drain_append, ← hdistances]
    simp only [Sweep.after, Array.toList_append, List.append_assoc]
    refine List.Perm.append_left _ (ih.trans ?_)
    rw [← List.append_assoc]
    exact hafter.append_right _

/-- The visits of a run are those of its drains. -/
theorem recorded_taken (g : Graph) (p : Progress shift) :
    recorded g p.distances (p.taken g) =
      (p.drains g).flatMap fun d => recorded g d.distances d.items := by
  fun_induction finish g p with
  | case1 p h =>
    rw [taken_of_none h, drains_of_none h]
    rfl
  | case2 p d q h ih =>
    obtain ⟨hbefore, hdistances, _⟩ := of_drain? h
    rw [taken_of_some h, drains_of_some h, recorded_append, List.flatMap_cons, hbefore, ← hdistances,
      ih]

end Progress

end SparseGraph.ShortestPath
