import Mathlib
import SparseGraph.Proofs.Rank.Mass
import SparseGraph.Proofs.Rank.Splitting

namespace SparseGraph.Rank

/-!
# Rounds bring ranks closer together

In exact arithmetic what a round collects depends linearly on the ranks, so two arrays of ranks that
differ by some amounts are after a round no farther apart than what a round would make of these
amounts, the fixed part left out. Since a round takes nothing away, that is the part of their sum
that is passed on. So each round moves the ranks less than the one before it, and all rounds after
one that moved no vertex move them by no more than a geometric series.

* `Apart` — two arrays that differ by no more than a third one says;
* `Apart.scatter`, `Ready.abs_sub_step_le` — what scattering and a whole round make of them;
* `movement`, `Ready.movement_round_le` — the sum of all differences, and what a round leaves of it;
* `State.afterRounds`, `State.afterRounds_rounds` — any number of rounds, and those after a run;
* `sum_movement_le` — what any number of rounds move in total;
* `further_rounds_le` — the error of stopping early.
-/

variable {g : Graph} {v : Nat}

/-! ### Arrays that are apart -/

/-- At every vertex the first two arrays differ by no more than the third one says. -/
structure Apart (x y gap : Array Rat) : Prop where
  size_left : x.size = gap.size
  size_right : y.size = gap.size
  le : ∀ v, |rankOf exact x v - rankOf exact y v| ≤ rankOf exact gap v

theorem rankOf_modify_add (cells : Array Rat) (i : Nat) (share : Rat) (v : Nat) :
    rankOf exact (cells.modify i (· + share)) v =
      rankOf exact cells v + if i = v ∧ v < cells.size then share else 0 := by
  unfold rankOf
  rw [Array.getD_eq_getD_getElem?, Array.getD_eq_getD_getElem?, Array.getElem?_modify]
  by_cases hi : i = v
  · by_cases hv : v < cells.size
    · simp [hi, hv]
    · simp [hi, hv]
  · simp [hi]

namespace Apart

variable {x y gap cx cy cgap : Array Rat}

/-- Adding to one cell. -/
theorem modify (h : Apart x y gap) (i : Nat) {a b c : Rat} (hshare : |a - b| ≤ c) :
    Apart (x.modify i (· + a)) (y.modify i (· + b)) (gap.modify i (· + c)) where
  size_left := by rw [Array.size_modify, Array.size_modify, h.size_left]
  size_right := by rw [Array.size_modify, Array.size_modify, h.size_right]
  le v := by
    rw [rankOf_modify_add, rankOf_modify_add, rankOf_modify_add, h.size_left, h.size_right]
    split_ifs
    · rw [add_sub_add_comm]
      exact (abs_add_le _ _).trans (add_le_add (h.le v) hshare)
    · simpa using h.le v

theorem foldl_modify (h : Apart x y gap) (arcs : List Arc) {a b c : Rat} (hshare : |a - b| ≤ c) :
    Apart (arcs.foldl (fun cells arc => cells.modify arc.target.toNat (· + a)) x)
      (arcs.foldl (fun cells arc => cells.modify arc.target.toNat (· + b)) y)
      (arcs.foldl (fun cells arc => cells.modify arc.target.toNat (· + c)) gap) := by
  induction arcs generalizing x y gap with
  | nil => exact h
  | cons arc arcs ih => exact ih (h.modify arc.target.toNat hshare)

/-- **What one vertex scatters** of three arrays of ranks. -/
theorem scatter (h : Apart x y gap) (hc : Apart cx cy cgap) (v : Nat) :
    Apart (scatter exact g x cx v) (Rank.scatter exact g y cy v)
      (Rank.scatter exact g gap cgap v) := by
  unfold Rank.scatter
  split_ifs with hdegree
  · exact hc
  · refine hc.foldl_modify (g.arcs v) ?_
    show |rankOf exact x v / g.degree v - rankOf exact y v / g.degree v| ≤
      rankOf exact gap v / g.degree v
    rw [← sub_div, abs_div, Nat.abs_cast]
    exact div_le_div_of_nonneg_right (h.le v) (Nat.cast_nonneg _)

theorem foldl_scatter (h : Apart x y gap) (hc : Apart cx cy cgap) (vertices : List Nat) :
    Apart (vertices.foldl (Rank.scatter exact g x) cx) (vertices.foldl (Rank.scatter exact g y) cy)
      (vertices.foldl (Rank.scatter exact g gap) cgap) := by
  induction vertices generalizing cx cy cgap with
  | nil => exact hc
  | cons v vertices ih => exact ih (h.scatter hc v)

/-- **What dead ends hold** of three arrays of ranks. -/
theorem deadEnds_le (h : Apart x y gap) (vertices : List Nat) :
    |(vertices.map (deadEndMass exact g x)).sum - (vertices.map (deadEndMass exact g y)).sum| ≤
      (vertices.map (deadEndMass exact g gap)).sum := by
  induction vertices with
  | nil => simp
  | cons v vertices ih =>
    have hv : |(deadEndMass exact g x v : Rat) - deadEndMass exact g y v| ≤
        deadEndMass exact g gap v := by
      unfold deadEndMass
      split_ifs
      · exact h.le v
      · simp [exact]
    simp only [List.map_cons, List.sum_cons]
    rw [add_sub_add_comm]
    exact (abs_add_le _ _).trans (add_le_add hv ih)

end Apart

/-- Empty buffers do not differ. -/
theorem apart_replicate_zero (n : Nat) :
    Apart (Array.replicate n 0) (Array.replicate n 0) (Array.replicate n 0) where
  size_left := rfl
  size_right := rfl
  le v := by
    rw [sub_self, abs_zero]
    exact nonneg_rankOf (fun x hx => (Array.mem_replicate.1 hx).2.ge) v

/-! ### How far a round moves ranks -/

/-- The sum, over all vertices, of the differences between the ranks in two states. -/
def movement (g : Graph) (s t : State Rat) : Rat :=
  ∑ v ∈ Finset.range g.numNodes, |rankOf exact t.ranks v - rankOf exact s.ranks v|

/-- The sum of all ranks, by the vertices. -/
theorem sum_toList_ranks {ranks : Array Rat} (h : ranks.size = g.numNodes) :
    ranks.toList.sum = ∑ v ∈ Finset.range g.numNodes, rankOf exact ranks v := by
  rw [toList_eq_map_rankOf exact ranks, h]
  rfl

theorem movement_triangle (g : Graph) (s t u : State Rat) :
    movement g s u ≤ movement g s t + movement g t u := by
  unfold movement
  rw [← Finset.sum_add_distrib]
  refine Finset.sum_le_sum fun v _ => ?_
  rw [add_comm]
  exact abs_sub_le _ _ _

/-- The differences between the ranks in two states. -/
def gaps (s t : State Rat) : Array Rat :=
  Array.zipWith (fun x y => |x - y|) t.ranks s.ranks

namespace Ready

variable {s t : State Rat} {pool : Pool} {config : Config Rat}

theorem size_gaps (hs : Ready exact g s) (ht : Ready exact g t) :
    (gaps s t).size = g.numNodes := by
  rw [gaps, Array.size_zipWith, hs.size_ranks, ht.size_ranks, min_self]

theorem rankOf_gaps (hs : Ready exact g s) (ht : Ready exact g t) (v : Nat) :
    rankOf exact (gaps s t) v = |rankOf exact t.ranks v - rankOf exact s.ranks v| := by
  have hsize : s.ranks.size = t.ranks.size := hs.size_ranks.trans ht.size_ranks.symm
  unfold rankOf gaps
  simp only [Array.getD_eq_getD_getElem?, Array.getElem?_zipWith]
  by_cases hv : v < t.ranks.size
  · rw [Array.getElem?_eq_getElem hv, Array.getElem?_eq_getElem (hsize.symm ▸ hv)]
    rfl
  · rw [Array.getElem?_eq_none (Nat.le_of_not_lt hv),
      Array.getElem?_eq_none (hsize ▸ Nat.le_of_not_lt hv)]
    simp [exact]

/-- Two states are apart by the differences between their ranks. -/
theorem apart_gaps (hs : Ready exact g s) (ht : Ready exact g t) :
    Apart t.ranks s.ranks (gaps s t) where
  size_left := by rw [ht.size_ranks, hs.size_gaps ht]
  size_right := by rw [hs.size_ranks, hs.size_gaps ht]
  le v := (hs.rankOf_gaps ht v).ge

/-- A rank after a round, from what was collected and what dead ends held. -/
theorem rankOf_step (h : Ready exact g s) (hv : v < g.numNodes) :
    rankOf exact (s.step exact pool g config).2.ranks v =
      (1 - config.damping) / g.numNodes + config.damping *
        (rankOf exact ((List.range g.numNodes).foldl (scatter exact g s.ranks)
          (Array.replicate g.numNodes 0)) v +
          ((List.range g.numNodes).map (deadEndMass exact g s.ranks)).sum / g.numNodes) := by
  have hsize : v < ((List.range g.numNodes).foldl (scatter exact g s.ranks)
      (Array.replicate g.numNodes 0)).size := by
    rw [size_foldl_scatter, Array.size_replicate]
    exact hv
  rw [h.ranks_step pool config, rankOf, rankOf, Array.getD_eq_getD_getElem?,
    Array.getD_eq_getD_getElem?, Array.getElem?_map, Array.getElem?_eq_getElem hsize]
  rfl

/-- **After a round** ranks differ by no more than what the round would make of the differences, the
    fixed part left out. -/
theorem abs_sub_step_le (hs : Ready exact g s) (ht : Ready exact g t)
    (hd : 0 ≤ config.damping) (hv : v < g.numNodes) :
    |rankOf exact (t.step exact pool g config).2.ranks v -
        rankOf exact (s.step exact pool g config).2.ranks v| ≤
      rankOf exact (State.step exact pool g config
        ⟨gaps s t, Array.replicate g.numNodes 0⟩).2.ranks v -
        (1 - config.damping) / g.numNodes := by
  have hgaps : Ready exact g ⟨gaps s t, Array.replicate g.numNodes 0⟩ := ⟨hs.size_gaps ht, rfl⟩
  have hapart := hs.apart_gaps ht
  have hcollected := (hapart.foldl_scatter (g := g) (apart_replicate_zero g.numNodes)
    (List.range g.numNodes)).le v
  have hdead := div_le_div_of_nonneg_right (hapart.deadEnds_le (g := g) (List.range g.numNodes))
    (Nat.cast_nonneg g.numNodes)
  rw [ht.rankOf_step hv, hs.rankOf_step hv, hgaps.rankOf_step hv, add_sub_add_left_eq_sub,
    add_sub_cancel_left, ← mul_sub, abs_mul, abs_of_nonneg hd]
  refine mul_le_mul_of_nonneg_left ?_ hd
  rw [add_sub_add_comm, ← sub_div]
  refine (abs_add_le _ _).trans (add_le_add hcollected ?_)
  rw [abs_div, Nat.abs_cast]
  exact hdead

/-- **A round is a contraction:** afterwards two states are apart by no more than the part that is
    passed on of what they were apart. -/
theorem movement_round_le (hs : Ready exact g s) (ht : Ready exact g t) (hpos : 0 < g.numNodes)
    (hd : 0 ≤ config.damping) :
    movement g (s.round exact pool g config).2 (t.round exact pool g config).2 ≤
      config.damping * movement g s t := by
  have hgaps : Ready exact g ⟨gaps s t, Array.replicate g.numNodes 0⟩ := ⟨hs.size_gaps ht, rfl⟩
  have hn : (g.numNodes : Rat) ≠ 0 := Nat.cast_ne_zero.2 (by omega)
  have hsum := hgaps.sum_step pool config hpos
  rw [sum_toList_ranks (hgaps.step pool config).size_ranks, sum_toList_ranks hgaps.size_ranks] at hsum
  calc movement g (s.round exact pool g config).2 (t.round exact pool g config).2
      ≤ ∑ v ∈ Finset.range g.numNodes, (rankOf exact (State.step exact pool g config
          ⟨gaps s t, Array.replicate g.numNodes 0⟩).2.ranks v -
          (1 - config.damping) / g.numNodes) :=
        Finset.sum_le_sum fun v hv => hs.abs_sub_step_le ht hd (Finset.mem_range.1 hv)
    _ = config.damping * ∑ v ∈ Finset.range g.numNodes, rankOf exact (gaps s t) v := by
        rw [Finset.sum_sub_distrib, hsum, Finset.sum_const, Finset.card_range, nsmul_eq_mul,
          mul_div_cancel₀ _ hn, add_sub_cancel_left]
    _ = config.damping * movement g s t := by
        rw [movement]
        congr 1
        exact Finset.sum_congr rfl fun v _ => hs.rankOf_gaps ht v

end Ready

/-! ### Further rounds -/

/-- The state after `k` rounds, whether or not any vertex still moves. -/
def State.afterRounds (pool : Pool) (g : Graph) (config : Config Rat) (k : Nat) (s : State Rat) :
    State Rat :=
  (fun s => (s.round exact pool g config).2)^[k] s

section
variable {s : State Rat} {pool : Pool} {config : Config Rat}

theorem State.afterRounds_succ (k : Nat) :
    s.afterRounds pool g config (k + 1) =
      (s.round exact pool g config).2.afterRounds pool g config k :=
  Function.iterate_succ_apply _ k s

/-- **A run** goes through as many rounds as it counts moved vertices for. -/
theorem State.rounds_eq_afterRounds (limit : Nat) :
    (s.rounds exact pool g config limit).2 =
      s.afterRounds pool g config (s.rounds exact pool g config limit).1.length := by
  induction limit generalizing s with
  | zero => rfl
  | succ limit ih =>
    by_cases hquiet : (s.round exact pool g config).1 = 0
    · rw [rounds_of_quiet hquiet]
      rfl
    · rw [rounds_of_moved hquiet]
      exact ih

/-- **The rounds after a run** follow on those of the run. -/
theorem State.afterRounds_rounds (limit k : Nat) :
    (s.rounds exact pool g config limit).2.afterRounds pool g config k =
      s.afterRounds pool g config ((s.rounds exact pool g config limit).1.length + k) := by
  rw [rounds_eq_afterRounds, Nat.add_comm]
  exact (Function.iterate_add_apply _ k _ s).symm

theorem movement_self (g : Graph) (s : State Rat) : movement g s s = 0 := by
  unfold movement
  simp

theorem movement_nonneg (g : Graph) (s t : State Rat) : 0 ≤ movement g s t :=
  Finset.sum_nonneg fun _ _ => abs_nonneg _

/-- **Any number of rounds** move the ranks no farther than a geometric series that begins with the
    first of them. -/
theorem sum_movement_le (h : Ready exact g s) (hpos : 0 < g.numNodes) (hd : 0 ≤ config.damping)
    (hlt : config.damping < 1) (k : Nat) :
    ∑ i ∈ Finset.range k, movement g (s.afterRounds pool g config i)
        (s.afterRounds pool g config (i + 1)) ≤
      movement g s (s.round exact pool g config).2 / (1 - config.damping) := by
  have hrest : 0 < 1 - config.damping := sub_pos.2 hlt
  -- The rounds after the first one move no farther than a series that begins with what is passed on.
  induction k generalizing s with
  | zero => exact div_nonneg (movement_nonneg _ _ _) hrest.le
  | succ k ih =>
    have hround : Ready exact g (s.round exact pool g config).2 := h.step pool config
    have hnext := (ih hround).trans
      (div_le_div_of_nonneg_right (h.movement_round_le hround hpos hd) hrest.le)
    rw [Finset.sum_range_succ']
    simp only [State.afterRounds_succ] at hnext ⊢
    calc _ ≤ config.damping * movement g s (s.round exact pool g config).2 / (1 - config.damping) +
          movement g s (s.round exact pool g config).2 := add_le_add hnext le_rfl
      _ = movement g s (s.round exact pool g config).2 / (1 - config.damping) := by
        field_simp
        ring

/-- All rounds together are at least as far as from the first state to the last. -/
theorem movement_le_sum (g : Graph) (states : Nat → State Rat) (k : Nat) :
    movement g (states 0) (states k) ≤
      ∑ i ∈ Finset.range k, movement g (states i) (states (i + 1)) := by
  induction k with
  | zero => exact (movement_self g (states 0)).le
  | succ k ih =>
    rw [Finset.sum_range_succ]
    exact (movement_triangle g _ (states k) _).trans (by gcongr)

/-! ### A round that moves no vertex -/

/-- **A quiet round** moves every rank by no more than the bound. -/
theorem movement_le_of_quiet (hquiet : (s.round exact pool g config).1 = 0) :
    movement g s (s.round exact pool g config).2 ≤ g.numNodes * config.epsilon := by
  let moved (v : Nat) : Bool := exact.differsBy
    (rankOf exact (s.round exact pool g config).2.ranks v) (rankOf exact s.ranks v) config.epsilon
  have hcount : (s.round exact pool g config).1 =
      ((indices 0 g.numNodes).map fun v => if moved v then 1 else 0).sum :=
    (Pieces.mapReduce_eq_sum _ _).trans (by rw [Pool.toList_cut]; rfl)
  rw [indices_zero] at hcount
  have hnone : (List.range g.numNodes).any moved = false := by
    rw [← sum_ite_bne_zero, ← hcount, hquiet]
    rfl
  have hle : ∀ v ∈ Finset.range g.numNodes,
      |rankOf exact (s.round exact pool g config).2.ranks v - rankOf exact s.ranks v| ≤
        config.epsilon := by
    intro v hv
    have hstill := List.any_eq_false.1 hnone v (List.mem_range.2 (Finset.mem_range.1 hv))
    simpa [moved, exact, abs_sub_le_iff] using hstill
  calc movement g s (s.round exact pool g config).2
      ≤ (Finset.range g.numNodes).card • config.epsilon := Finset.sum_le_card_nsmul _ _ _ hle
    _ = g.numNodes * config.epsilon := by rw [Finset.card_range, nsmul_eq_mul]

/-- A run that ends with a quiet round ends with the state after that round. -/
theorem State.exists_quiet_round (h : Ready exact g s) {limit : Nat}
    (hzero : 0 ∈ (s.rounds exact pool g config limit).1) :
    ∃ before, Ready exact g before ∧ (before.round exact pool g config).1 = 0 ∧
      (s.rounds exact pool g config limit).2 = (before.round exact pool g config).2 := by
  induction limit generalizing s with
  | zero => exact absurd hzero List.not_mem_nil
  | succ limit ih =>
    by_cases hquiet : (s.round exact pool g config).1 = 0
    · exact ⟨s, h, hquiet, by rw [rounds_of_quiet hquiet]⟩
    · rw [rounds_of_moved hquiet] at hzero ⊢
      exact ih (h.step pool config) ((List.mem_cons.1 hzero).resolve_left (Ne.symm hquiet))

end

/-- **Stopping early is safe.** In exact arithmetic, if a part of the ranks less than all of them is
    passed on, each round moves the ranks by no more than that part of what the round before it
    moved them by. A run goes through one round after another, and further rounds would follow on
    those. So if it stops because no vertex has moved, all further rounds together would move the
    ranks by no more than a multiple of the bound on movements. -/
theorem further_rounds_le (pool : Pool) (g : Graph) (hpos : 0 < g.numNodes) (config : Config Rat)
    (hd : 0 ≤ config.damping) (hlt : config.damping < 1) (s : State Rat)
    (hsize : s.ranks.size = g.numNodes) (hbuffer : s.buffer = Array.replicate g.numNodes 0) :
    s.afterRounds pool g config 0 = s ∧
      (∀ k, s.afterRounds pool g config (k + 1) =
        ((s.afterRounds pool g config k).round exact pool g config).2) ∧
      movement g (s.afterRounds pool g config 1) (s.afterRounds pool g config 2) ≤
        config.damping * movement g s (s.afterRounds pool g config 1) ∧
      ∃ activity last, s.run? exact pool g config = some (activity, last) ∧
        (∀ k, last.afterRounds pool g config k =
          s.afterRounds pool g config (activity.length + k)) ∧
        (activity.getLast? = some 0 → ∀ k,
          ∑ i ∈ Finset.range k, movement g (last.afterRounds pool g config i)
              (last.afterRounds pool g config (i + 1)) ≤
            g.numNodes * config.epsilon * config.damping / (1 - config.damping) ∧
          movement g last (last.afterRounds pool g config k) ≤
            g.numNodes * config.epsilon * config.damping / (1 - config.damping)) := by
  have h : Ready exact g s := ⟨hsize, hbuffer⟩
  have hround : Ready exact g (s.round exact pool g config).2 := h.step pool config
  refine ⟨rfl, fun k => Function.iterate_succ_apply' _ k s, h.movement_round_le hround hpos hd,
    _, _, h.run?_eq hpos, State.afterRounds_rounds _, fun hlast k => ?_⟩
  obtain ⟨before, hbefore, hquiet, heq⟩ := State.exists_quiet_round h (List.mem_of_getLast? hlast)
  rw [heq]
  have hlastReady : Ready exact g (before.round exact pool g config).2 := hbefore.step pool config
  have hfirst : movement g (before.round exact pool g config).2
      ((before.round exact pool g config).2.round exact pool g config).2 ≤
      g.numNodes * config.epsilon * config.damping :=
    calc _ ≤ config.damping * movement g before (before.round exact pool g config).2 :=
          hbefore.movement_round_le hlastReady hpos hd
      _ ≤ config.damping * (g.numNodes * config.epsilon) :=
          mul_le_mul_of_nonneg_left (movement_le_of_quiet hquiet) hd
      _ = g.numNodes * config.epsilon * config.damping := mul_comm _ _
  have htotal := (@sum_movement_le g _ pool config hlastReady hpos hd hlt k).trans
    (div_le_div_of_nonneg_right hfirst (sub_pos.2 hlt).le)
  refine ⟨htotal, le_trans ?_ htotal⟩
  exact movement_le_sum g (State.afterRounds pool g config · _) k

/-! ### A graph with dead ends -/

/-- The general theorem at the graph with dead ends, a loop and a double edge, from ranks far out of
    balance: the run stops after ten rounds of at most twenty, and whatever rounds would follow move
    the ranks by no more than 1 / 25 in total. -/
theorem further_rounds_le_sinks :
    0 < sinks.numNodes ∧ (0 : Rat) ≤ 1 / 2 ∧ (1 / 2 : Rat) < 1 ∧
      (⟨#[7, 0, 0, 3], #[0, 0, 0, 0]⟩ : State Rat).ranks.size = sinks.numNodes ∧
      (⟨#[7, 0, 0, 3], #[0, 0, 0, 0]⟩ : State Rat).buffer = Array.replicate sinks.numNodes 0 ∧
      ∃ last, State.run? exact ⟨2⟩ sinks ⟨1 / 2, 1 / 100, 20⟩ ⟨#[7, 0, 0, 3], #[0, 0, 0, 0]⟩ =
          some ([4, 4, 4, 4, 1, 1, 1, 1, 1, 0], last) ∧
        (∀ k, last.afterRounds ⟨2⟩ sinks ⟨1 / 2, 1 / 100, 20⟩ k =
          State.afterRounds ⟨2⟩ sinks ⟨1 / 2, 1 / 100, 20⟩ (10 + k)
            ⟨#[7, 0, 0, 3], #[0, 0, 0, 0]⟩) ∧
        ∀ k, movement sinks last (last.afterRounds ⟨2⟩ sinks ⟨1 / 2, 1 / 100, 20⟩ k) ≤ 1 / 25 := by
  have hpos : 0 < sinks.numNodes := by decide
  have hd : (0 : Rat) ≤ 1 / 2 := by decide +kernel
  have hlt : (1 / 2 : Rat) < 1 := by decide +kernel
  have hsize : (⟨#[7, 0, 0, 3], #[0, 0, 0, 0]⟩ : State Rat).ranks.size = sinks.numNodes := rfl
  have hbuffer : (⟨#[7, 0, 0, 3], #[0, 0, 0, 0]⟩ : State Rat).buffer =
      Array.replicate sinks.numNodes 0 := rfl
  obtain ⟨_, _, _, activity, last, hrun, hfollow, hbound⟩ := further_rounds_le ⟨2⟩ sinks hpos
    ⟨1 / 2, 1 / 100, 20⟩ hd hlt ⟨#[7, 0, 0, 3], #[0, 0, 0, 0]⟩ hsize hbuffer
  have hactivity : (State.run? exact ⟨2⟩ sinks ⟨1 / 2, 1 / 100, 20⟩
      ⟨#[7, 0, 0, 3], #[0, 0, 0, 0]⟩).map Prod.fst = some [4, 4, 4, 4, 1, 1, 1, 1, 1, 0] := by
    decide +kernel
  rw [hrun] at hactivity
  obtain rfl : activity = [4, 4, 4, 4, 1, 1, 1, 1, 1, 0] := Option.some.inj hactivity
  have hvalue : (sinks.numNodes : Rat) * (1 / 100) * (1 / 2) / (1 - 1 / 2) = 1 / 25 := by
    decide +kernel
  refine ⟨hpos, hd, hlt, hsize, hbuffer, last, hrun, hfollow, fun k => ?_⟩
  rw [← hvalue]
  exact (hbound rfl k).2

end SparseGraph.Rank
