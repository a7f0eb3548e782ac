import Mathlib
import SparseGraph.Proofs.Graph.Tiling
import SparseGraph.Proofs.Rank.Reference

namespace SparseGraph.Rank

/-!
# Rounds conserve the mass

In exact arithmetic a round takes nothing away: what a vertex with edges scatters adds up to its
rank, because it has as many arcs as its degree says, and what dead ends hold is handed out in equal
parts. So the ranks add up to 1 after each round, as they do in the beginning, and unless the damping
takes something from the fixed part, no rank is below it.

* `sum_scatter`, `sum_foldl_scatter` — what scattering adds to the sum of the buffer;
* `sum_updated` — the sum of the new ranks;
* `Ready.sum_step` — what a round makes of the sum of the ranks;
* `Ready.teleport_le` — the fixed part as a lower bound of the ranks;
* `ranks_conserve_mass` — sum and lower bound after each round.
-/

variable {g : Graph} {ranks : Array Rat} {v : Nat}

/-! ### What scattering adds -/

/-- Adding to one cell adds to the sum. -/
theorem sum_modify_add (cells : List Rat) (i : Nat) (share : Rat) (hi : i < cells.length) :
    (cells.modify i (· + share)).sum = cells.sum + share := by
  induction cells generalizing i with
  | nil => exact absurd hi (Nat.not_lt_zero i)
  | cons x cells ih =>
    cases i with
    | zero => rw [List.modify_zero_cons, List.sum_cons, List.sum_cons]; ring
    | succ i =>
      rw [List.modify_succ_cons, List.sum_cons, List.sum_cons, ih i (Nat.lt_of_succ_lt_succ hi)]
      ring

/-- Every arc adds the share once. -/
theorem sum_foldl_modify_add (arcs : List Arc) (buffer : Array Rat) (share : Rat)
    (harcs : ∀ a ∈ arcs, a.target.toNat < buffer.size) :
    (arcs.foldl (fun b a => b.modify a.target.toNat (· + share)) buffer).toList.sum =
      buffer.toList.sum + arcs.length * share := by
  induction arcs generalizing buffer with
  | nil => simp
  | cons a arcs ih =>
    have ha : a.target.toNat < buffer.toList.length := by
      rw [Array.length_toList]
      exact harcs a List.mem_cons_self
    have hrest : ∀ b ∈ arcs, b.target.toNat < (buffer.modify a.target.toNat (· + share)).size := by
      intro b hb
      rw [Array.size_modify]
      exact harcs b (List.mem_cons_of_mem a hb)
    rw [List.foldl_cons, ih _ hrest, Array.toList_modify, sum_modify_add _ _ _ ha,
      List.length_cons]
    push_cast
    ring

/-- **What one vertex scatters** is its rank, unless it is a dead end. -/
theorem sum_scatter (ranks : Array Rat) {buffer : Array Rat} (hsize : buffer.size = g.numNodes)
    (hv : v < g.numNodes) :
    (scatter exact g ranks buffer v).toList.sum =
      buffer.toList.sum + (rankOf exact ranks v - deadEndMass exact g ranks v) := by
  unfold scatter deadEndMass
  split
  next =>
    show buffer.toList.sum = buffer.toList.sum + (rankOf exact ranks v - rankOf exact ranks v)
    rw [sub_self, add_zero]
  next hdegree =>
    have harcs : ∀ a ∈ g.arcs v, a.target.toNat < buffer.size := by
      intro a ha
      rw [hsize]
      exact Graph.target_lt_of_mem_arcs ha
    have hpos : (g.degree v : Rat) ≠ 0 := Nat.cast_ne_zero.2 hdegree
    have hsum := sum_foldl_modify_add (g.arcs v) buffer (rankOf exact ranks v / g.degree v) harcs
    -- The degree is the number of arcs, so the shares are the whole rank.
    rw [Graph.length_arcs hv, mul_div_cancel₀ _ hpos] at hsum
    rw [show exact.sumZero = (0 : Rat) from rfl, sub_zero]
    exact hsum

/-- **What the vertices scatter** is what they hold, less what dead ends hold. -/
theorem sum_foldl_scatter (ranks : Array Rat) {buffer : Array Rat}
    (hsize : buffer.size = g.numNodes) {vertices : List Nat}
    (hvertices : ∀ v ∈ vertices, v < g.numNodes) :
    (vertices.foldl (scatter exact g ranks) buffer).toList.sum =
      buffer.toList.sum + ((vertices.map (rankOf exact ranks)).sum -
        (vertices.map (deadEndMass exact g ranks)).sum) := by
  induction vertices generalizing buffer with
  | nil => simp
  | cons v vertices ih =>
    have hscattered : (scatter exact g ranks buffer v).size = g.numNodes :=
      (size_scatter exact g ranks buffer v).trans hsize
    rw [List.foldl_cons, ih hscattered fun w hw => hvertices w (List.mem_cons_of_mem v hw),
      sum_scatter ranks hsize (hvertices v List.mem_cons_self)]
    simp only [List.map_cons, List.sum_cons]
    ring

/-- The sum of the new ranks, from that of what was collected. -/
theorem sum_updated (config : Config Rat) (n : Nat) (share : Rat) (collected : List Rat) :
    (collected.map (updatedRank exact config n share)).sum =
      collected.length * ((1 - config.damping) / n) +
        config.damping * (collected.sum + collected.length * share) := by
  induction collected with
  | nil => simp
  | cons x collected ih =>
    have hx : updatedRank exact config n share x =
        (1 - config.damping) / n + config.damping * (x + share) := rfl
    rw [List.map_cons, List.sum_cons, ih, hx, List.sum_cons, List.length_cons]
    push_cast
    ring

/-! ### Ranks that are not negative -/

/-- Cells to which something is added do not become negative. -/
theorem nonneg_foldl_modify_add {share : Rat} (hshare : 0 ≤ share) (arcs : List Arc)
    {buffer : Array Rat} (h : ∀ x ∈ buffer, 0 ≤ x) :
    ∀ x ∈ arcs.foldl (fun b a => b.modify a.target.toNat (· + share)) buffer, 0 ≤ x := by
  induction arcs generalizing buffer with
  | nil => exact h
  | cons a arcs ih =>
    refine ih fun x hx => ?_
    obtain ⟨i, hi⟩ := Array.mem_iff_getElem?.1 hx
    rw [Array.getElem?_modify] at hi
    split at hi
    next =>
      obtain ⟨y, hy, rfl⟩ := Option.map_eq_some_iff.1 hi
      exact add_nonneg (h y (Array.mem_of_getElem? hy)) hshare
    next => exact h x (Array.mem_of_getElem? hi)

theorem nonneg_rankOf (h : ∀ x ∈ ranks, 0 ≤ x) (v : Nat) : 0 ≤ rankOf exact ranks v := by
  rw [rankOf, Array.getD_eq_getD_getElem?]
  cases hv : ranks[v]? with
  | none => exact le_refl (0 : Rat)
  | some x => exact h x (Array.mem_of_getElem? hv)

theorem nonneg_deadEndMass (h : ∀ x ∈ ranks, 0 ≤ x) (v : Nat) :
    0 ≤ deadEndMass exact g ranks v := by
  unfold deadEndMass
  split
  next => exact nonneg_rankOf h v
  next => exact le_refl (0 : Rat)

/-- **Nothing negative is collected** from ranks that are not negative. -/
theorem nonneg_foldl_scatter (h : ∀ x ∈ ranks, 0 ≤ x) (vertices : List Nat) {buffer : Array Rat}
    (hbuffer : ∀ x ∈ buffer, 0 ≤ x) :
    ∀ x ∈ vertices.foldl (scatter exact g ranks) buffer, 0 ≤ x := by
  induction vertices generalizing buffer with
  | nil => exact hbuffer
  | cons v vertices ih =>
    refine ih ?_
    unfold scatter
    split
    next => exact hbuffer
    next =>
      exact nonneg_foldl_modify_add
        (div_nonneg (nonneg_rankOf h v) (Nat.cast_nonneg (g.degree v))) (g.arcs v) hbuffer

/-! ### One round -/

namespace Ready

variable {s : State Rat} (pool : Pool) (config : Config Rat)

/-- The ranks after a round, from what the vertices scatter and what dead ends hold. -/
theorem ranks_step (h : Ready exact g s) :
    (s.step exact pool g config).2.ranks =
      ((List.range g.numNodes).foldl (scatter exact g s.ranks)
        (Array.replicate g.numNodes 0)).map
        (updatedRank exact config g.numNodes
          (((List.range g.numNodes).map (deadEndMass exact g s.ranks)).sum / g.numNodes)) := by
  have hdead : (pool.cut .standard (List.range g.numNodes)).mapReduce exact.sumZero
      (deadEndMass exact g s.ranks) exact.sumAdd =
      ((List.range g.numNodes).map (deadEndMass exact g s.ranks)).sum :=
    (Pieces.mapReduce_eq_sum _ _).trans (by rw [Pool.toList_cut])
  simp only [State.step, State.round, h.buffer_eq, indices_zero, hdead]
  rfl

/-- **A round takes nothing away:** of the old sum the part that is passed on is found again, besides
    the fixed part. -/
theorem sum_step (h : Ready exact g s) (hpos : 0 < g.numNodes) :
    (s.step exact pool g config).2.ranks.toList.sum =
      (1 - config.damping) + config.damping * s.ranks.toList.sum := by
  have hsize : (Array.replicate g.numNodes (0 : Rat)).size = g.numNodes := Array.size_replicate
  have hcollected := sum_foldl_scatter s.ranks hsize fun v (hv : v ∈ List.range g.numNodes) =>
    List.mem_range.1 hv
  have hall : s.ranks.toList = (List.range g.numNodes).map (rankOf exact s.ranks) := by
    rw [toList_eq_map_rankOf exact s.ranks, h.size_ranks]
  have hn : (g.numNodes : Rat) ≠ 0 := Nat.cast_ne_zero.2 (by omega)
  rw [h.ranks_step pool config, Array.toList_map, sum_updated, hcollected, Array.length_toList,
    size_foldl_scatter, hsize, ← hall]
  rw [Array.toList_replicate, List.sum_replicate, smul_zero, mul_div_cancel₀ _ hn,
    mul_div_cancel₀ _ hn]
  ring

/-- **The fixed part is a lower bound** of the ranks after a round, if no rank was negative and no
    negative part is passed on. -/
theorem teleport_le (h : Ready exact g s) (hranks : ∀ x ∈ s.ranks, 0 ≤ x)
    (hdamping : 0 ≤ config.damping) :
    ∀ x ∈ (s.step exact pool g config).2.ranks, (1 - config.damping) / g.numNodes ≤ x := by
  intro x hx
  rw [h.ranks_step pool config] at hx
  obtain ⟨collected, hmem, rfl⟩ := Array.mem_map.1 hx
  have hcollected : 0 ≤ collected := by
    refine nonneg_foldl_scatter hranks _ (fun y hy => ?_) collected hmem
    rw [(Array.mem_replicate.1 hy).2]
  have hdead : 0 ≤ ((List.range g.numNodes).map (deadEndMass exact g s.ranks)).sum := by
    apply List.sum_nonneg
    intro y hy
    obtain ⟨v, _, rfl⟩ := List.mem_map.1 hy
    exact nonneg_deadEndMass hranks v
  have hshare := div_nonneg hdead (Nat.cast_nonneg g.numNodes)
  exact le_add_of_nonneg_right (mul_nonneg hdamping (add_nonneg hcollected hshare))

end Ready

/-! ### All rounds -/

/-- What holds after every round: the ranks add up to 1, and the fixed part is a lower bound if the
    damping lies between 0 and 1. -/
structure Conserved (g : Graph) (config : Config Rat) (s : State Rat) : Prop
    extends Ready exact g s where
  sum_eq : s.ranks.toList.sum = 1
  ge : 0 ≤ config.damping → config.damping ≤ 1 →
    ∀ x ∈ s.ranks, (1 - config.damping) / g.numNodes ≤ x

/-- In the beginning all vertices have equal parts of 1. -/
theorem conserved_new (hpos : 0 < g.numNodes) (config : Config Rat) :
    Conserved g config (.new exact g.numNodes) where
  toReady := ready_new exact g
  sum_eq := by
    have hn : (g.numNodes : Rat) ≠ 0 := Nat.cast_ne_zero.2 (by omega)
    show (Array.replicate g.numNodes ((1 : Rat) / ((max g.numNodes 1 : Nat) : Rat))).toList.sum = 1
    rw [Nat.max_eq_left hpos, Array.toList_replicate, List.sum_replicate, nsmul_eq_mul,
      mul_one_div_cancel hn]
  ge hdamping _ x hx := by
    have hx : x = (1 : Rat) / ((max g.numNodes 1 : Nat) : Rat) := (Array.mem_replicate.1 hx).2
    rw [hx, Nat.max_eq_left hpos]
    exact div_le_div_of_nonneg_right (by linarith) (Nat.cast_nonneg g.numNodes)

/-- **A round conserves** the sum and the lower bound. -/
theorem Conserved.step {s : State Rat} {config : Config Rat} (h : Conserved g config s)
    (hpos : 0 < g.numNodes) (pool : Pool) :
    Conserved g config (s.step exact pool g config).2 where
  toReady := h.toReady.step pool config
  sum_eq := by
    rw [h.sum_step pool config hpos, h.sum_eq]
    ring
  ge hdamping hle := by
    refine h.teleport_le pool config (fun x hx => ?_) hdamping
    have hfixed : 0 ≤ (1 - config.damping) / g.numNodes :=
      div_nonneg (by linarith) (Nat.cast_nonneg g.numNodes)
    exact le_trans hfixed (h.ge hdamping hle x hx)

/-- **Mass is conserved.** In exact arithmetic a run from ranks that were reset takes place on every
    graph with a vertex, and through all its rounds, whatever the damping, the ranks add up to 1. If
    the damping lies between 0 and 1, no rank is below the fixed part. -/
theorem ranks_conserve_mass (pool : Pool) (g : Graph) (hpos : 0 < g.numNodes)
    (config : Config Rat) (s : State Rat) (hsize : s.ranks.size = g.numNodes) :
    (∃ activity after, (s.reset exact).run? exact pool g config = some (activity, after) ∧
      after ∈ s.reset exact ::
        course (State.step exact pool g config) config.maxRounds (s.reset exact)) ∧
    ∀ t ∈ s.reset exact ::
        course (State.step exact pool g config) config.maxRounds (s.reset exact),
      t.ranks.toList.sum = 1 ∧
        (0 ≤ config.damping → config.damping ≤ 1 →
          ∀ x ∈ t.ranks, (1 - config.damping) / g.numNodes ≤ x) := by
  have hreset : s.reset exact = .new exact g.numNodes := by rw [State.reset, hsize]
  have hnew := conserved_new hpos config
  have hrun : (State.new exact g.numNodes).run? exact pool g config =
      some ((State.new exact g.numNodes).rounds exact pool g config config.maxRounds) := by
    rw [State.run?, if_neg (not_not_intro hnew.size_ranks), if_neg (by omega)]
  rw [hreset]
  refine ⟨⟨_, _, hrun, ?_⟩, fun t ht => ?_⟩
  · rw [(State.rounds_eq_course exact pool g config _ _).2]
    exact List.getLastD_mem_cons
  · have ht : Conserved g config t := by
      rcases List.mem_cons.1 ht with rfl | ht
      · exact hnew
      · exact forall_mem_course (fun _ h => h.step hpos pool) hnew config.maxRounds t ht
    exact ⟨ht.sum_eq, ht.ge⟩

/-- The general theorem at the graph with dead ends, a loop and a double edge, from ranks that were
    out of balance before their reset: two rounds keep the sum, and no rank falls below an eighth. -/
theorem ranks_conserve_mass_sinks :
    0 < sinks.numNodes ∧ (⟨#[7, 0, 0, 3], #[]⟩ : State Rat).ranks.size = sinks.numNodes ∧
      ∃ activity after,
        (State.reset exact ⟨#[7, 0, 0, 3], #[]⟩).run? exact ⟨2⟩ sinks ⟨1 / 2, 1 / 100, 2⟩ =
          some (activity, after) ∧
        activity = [4, 4] ∧ after.ranks = #[11 / 64, 31 / 64, 11 / 64, 11 / 64] ∧
        after.ranks.toList.sum = 1 ∧ ∀ x ∈ after.ranks, 1 / 8 ≤ x := by
  have hpos : 0 < sinks.numNodes := by decide
  have hsize : (⟨#[7, 0, 0, 3], #[]⟩ : State Rat).ranks.size = sinks.numNodes := rfl
  obtain ⟨⟨activity, after, hrun, hafter⟩, hall⟩ := ranks_conserve_mass ⟨2⟩ sinks hpos
    ⟨1 / 2, 1 / 100, 2⟩ ⟨#[7, 0, 0, 3], #[]⟩ hsize
  obtain ⟨hsum, hge⟩ := hall after hafter
  have hvalues : ((State.reset exact ⟨#[7, 0, 0, 3], #[]⟩).run? exact ⟨2⟩ sinks
      ⟨1 / 2, 1 / 100, 2⟩).map (fun run => (run.1, run.2.ranks)) =
      some ([4, 4], #[11 / 64, 31 / 64, 11 / 64, 11 / 64]) := by
    decide +kernel
  rw [hrun] at hvalues
  obtain ⟨hactivity, hranks⟩ := Prod.ext_iff.1 (Option.some.inj hvalues)
  have hbound : (1 - 1 / 2 : Rat) / sinks.numNodes = 1 / 8 := by decide +kernel
  refine ⟨hpos, hsize, activity, after, hrun, hactivity, hranks, hsum, fun x hx => ?_⟩
  rw [← hbound]
  exact hge (by decide +kernel) (by decide +kernel) x hx

end SparseGraph.Rank
