import Mathlib
import SparseGraph.Proofs.Loop
import SparseGraph.Rank.Course

namespace SparseGraph.Rank

/-!
# The parallel and the sequential iteration agree

The iteration keeps a cleared buffer from round to round and combines the mass of dead ends and the
number of moved vertices over the pieces of a loop. The sequential one starts from an empty array in
each round and adds only what dead ends hold. Both do the same operations on ranks in the same
order, whatever these operations are, so that their ranks are the same and not only close.

* `Arithmetic.ZeroNeutral` — what is assumed of the sums;
* `foldl_give` — giving ranks in sequence is scattering them and summing the dead ends;
* `deadEnds_eq_foldl` — the mass of dead ends, however the loop is cut;
* `Ready.step_eq` — one round of both;
* `pageRank_agrees` — the ranks, round for round.
-/

variable {R W : Type} {ar : Arithmetic R W} {g : Graph}

/-- Adding zero leaves every running sum alone. In floating point this holds although zero is not
    neutral for the negative zero, which no sum that begins with zero becomes. -/
def Arithmetic.ZeroNeutral (ar : Arithmetic R W) : Prop :=
  ∀ terms : List W, ar.sumAdd (terms.foldl ar.sumAdd ar.sumZero) ar.sumZero =
    terms.foldl ar.sumAdd ar.sumZero

/-! ### Ranks by their vertices -/

section
variable (ar)

theorem toList_eq_map_rankOf (ranks : Array R) :
    ranks.toList = (List.range ranks.size).map (rankOf ar ranks) := by
  apply List.ext_getElem
  · rw [Array.length_toList, List.length_map, List.length_range]
  · intro v hv _
    have hlt : v < ranks.size := by simpa using hv
    rw [Array.getElem_toList, List.getElem_map, List.getElem_range, rankOf,
      Array.getD_eq_getD_getElem?, Array.getElem?_eq_getElem hlt, Option.getD_some]

theorem size_scatter (g : Graph) (ranks buffer : Array R) (v : Nat) :
    (scatter ar g ranks buffer v).size = buffer.size := by
  unfold scatter
  split
  next => rfl
  next =>
    dsimp only
    generalize g.arcs v = arcs
    induction arcs generalizing buffer with
    | nil => rfl
    | cons a arcs ih => rw [List.foldl_cons, ih, Array.size_modify]

theorem size_foldl_scatter (g : Graph) (ranks buffer : Array R) (vertices : List Nat) :
    (vertices.foldl (scatter ar g ranks) buffer).size = buffer.size := by
  induction vertices generalizing buffer with
  | nil => rfl
  | cons v vertices ih => rw [List.foldl_cons, ih, size_scatter]

end

/-! ### Giving in sequence -/

/-- **One vertex gives.** A vertex with edges scatters its rank, and for its dead-end mass of zero
    the running sum need not be touched. -/
theorem give_eq (hzero : ar.ZeroNeutral) (ranks collected : Array R) (terms : List W) (v : Nat) :
    give ar g ranks ⟨collected, terms.foldl ar.sumAdd ar.sumZero⟩ v =
      ⟨scatter ar g ranks collected v,
        (terms ++ [deadEndMass ar g ranks v]).foldl ar.sumAdd ar.sumZero⟩ := by
  rw [List.foldl_concat]
  by_cases hdegree : g.degree v = 0
  · have hrow : ¬ g.start v < g.start (v + 1) := by
      unfold Graph.degree at hdegree
      omega
    rw [give, if_neg hrow, scatter, if_pos hdegree, deadEndMass, if_pos hdegree]
  · have hrow : g.start v < g.start (v + 1) := by
      unfold Graph.degree at hdegree
      omega
    rw [give, if_pos hrow, scatter, if_neg hdegree, deadEndMass, if_neg hdegree, hzero]
    rfl

/-- **All vertices give.** What they give in sequence is what they scatter and the sum of what dead
    ends hold. -/
theorem foldl_give (hzero : ar.ZeroNeutral) (ranks collected : Array R) (terms : List W)
    (vertices : List Nat) :
    vertices.foldl (give ar g ranks) ⟨collected, terms.foldl ar.sumAdd ar.sumZero⟩ =
      ⟨vertices.foldl (scatter ar g ranks) collected,
        (terms ++ vertices.map (deadEndMass ar g ranks)).foldl ar.sumAdd ar.sumZero⟩ := by
  induction vertices generalizing collected terms with
  | nil => rw [List.map_nil, List.append_nil, List.foldl_nil, List.foldl_nil]
  | cons v vertices ih =>
    rw [List.foldl_cons, give_eq hzero, ih, List.append_assoc, List.singleton_append,
      List.foldl_cons, List.map_cons]

/-! ### Sums over pieces -/

/-- **The mass of dead ends** is summed in sequence if the loop is short enough to be one piece, and
    as if it were so if sums are associative. -/
theorem deadEnds_eq_foldl (pool : Pool) (hzero : ar.ZeroNeutral)
    (hsum : g.numNodes < 1024 ∨
      ∀ x y z, ar.sumAdd (ar.sumAdd x y) z = ar.sumAdd x (ar.sumAdd y z))
    (ranks : Array R) :
    (pool.cut .standard (indices 0 g.numNodes)).mapReduce ar.sumZero (deadEndMass ar g ranks)
        ar.sumAdd =
      ((List.range g.numNodes).map (deadEndMass ar g ranks)).foldl ar.sumAdd ar.sumZero := by
  rw [indices_zero]
  rcases hsum with hshort | hassoc
  · rw [Pool.cut_of_lt pool (by rw [List.length_range]; exact hshort)]
    exact List.foldl_map.symm
  · rw [Pieces.mapReduce_eq_foldl hassoc hzero, Pool.toList_cut]

/-- Ones are added up to something else than zero if there is any. -/
theorem sum_ite_bne_zero {α : Type} (p : α → Bool) (l : List α) :
    ((l.map fun a => if p a then 1 else 0).sum != 0) = l.any p := by
  induction l with
  | nil => rfl
  | cons a l ih =>
    rw [List.map_cons, List.sum_cons, List.any_cons, ← ih]
    cases p a <;> simp

/-- **Some vertex has moved** if the number of those that have is not zero. -/
theorem active_bne_zero (ar : Arithmetic R W) (pool : Pool) (o : LoopOptions) (bound : R)
    {next ranks : Array R} (hnext : next.size = g.numNodes) (hranks : ranks.size = g.numNodes) :
    ((pool.cut o (indices 0 g.numNodes)).mapReduce 0
        (fun v => if ar.differsBy (rankOf ar next v) (rankOf ar ranks v) bound then 1 else 0)
        (· + ·) != 0) =
      (next.toList.zip ranks.toList).any fun (new, old) => ar.differsBy new old bound := by
  rw [Pieces.mapReduce_eq_sum, Pool.toList_cut, indices_zero, sum_ite_bne_zero,
    toList_eq_map_rankOf ar next, toList_eq_map_rankOf ar ranks, hnext, hranks, List.zip_map',
    List.any_map]
  rfl

/-! ### One round -/

/-- A state between two rounds: as many ranks as vertices, and an empty buffer. -/
structure Ready (ar : Arithmetic R W) (g : Graph) (s : State R) : Prop where
  size_ranks : s.ranks.size = g.numNodes
  buffer_eq : s.buffer = Array.replicate g.numNodes ar.zero

/-- In the beginning the buffer is empty. -/
theorem ready_new (ar : Arithmetic R W) (g : Graph) : Ready ar g (.new ar g.numNodes) where
  size_ranks := Array.size_replicate
  buffer_eq := rfl

namespace Ready

variable {s : State R} (pool : Pool) (config : Config R)

/-- **A round clears the buffer** for the next one. -/
theorem step (h : Ready ar g s) : Ready ar g (s.step ar pool g config).2 where
  size_ranks := by
    show (Array.map _ (List.foldl _ s.buffer _)).size = _
    rw [Array.size_map, size_foldl_scatter, h.buffer_eq, Array.size_replicate]
  buffer_eq := by
    show s.ranks.map (fun _ => ar.zero) = _
    rw [Array.map_const', h.size_ranks]

/-- **One round** of both iterations yields the same ranks and decides alike whether to go on. -/
theorem step_eq (hzero : ar.ZeroNeutral)
    (hsum : g.numNodes < 1024 ∨
      ∀ x y z, ar.sumAdd (ar.sumAdd x y) z = ar.sumAdd x (ar.sumAdd y z))
    (h : Ready ar g s) :
    referenceRound ar g config s.ranks =
      ((s.step ar pool g config).1, (s.step ar pool g config).2.ranks) := by
  have hgiven := foldl_give (g := g) hzero s.ranks (Array.replicate g.numNodes ar.zero) []
    (List.range g.numNodes)
  rw [List.foldl_nil, List.nil_append, ← deadEnds_eq_foldl pool hzero hsum,
    ← h.buffer_eq] at hgiven
  have hranks : (referenceRound ar g config s.ranks).2 = (s.step ar pool g config).2.ranks := by
    simp only [referenceRound, State.step, State.round, hgiven, ← h.buffer_eq, indices_zero]
  refine Prod.ext ?_ hranks
  have hmoved := active_bne_zero ar pool .partitioned config.epsilon
    (h.step pool config).size_ranks h.size_ranks
  show (List.zip (referenceRound ar g config s.ranks).2.toList s.ranks.toList).any _ = _
  rw [hranks, ← hmoved]
  rfl

end Ready

/-! ### All rounds -/

/-- **The iterations agree,** whatever the operations on ranks and sums do, if zero is neutral for
    running sums: they go through the same ranks round for round, stop after the same round, and
    return the same ranks. From 1024 vertices on the parallel sum may be cut, and has to be
    associative. -/
theorem pageRank_agrees {R W : Type} (ar : Arithmetic R W) (hzero : ar.ZeroNeutral) (pool : Pool)
    (g : Graph) (config : Config R)
    (hsum : g.numNodes < 1024 ∨
      ∀ x y z, ar.sumAdd (ar.sumAdd x y) z = ar.sumAdd x (ar.sumAdd y z)) :
    pageRankCourse ar pool g config = referenceCourse ar g config ∧
      (pageRank ar pool g config).activity.length = (referenceCourse ar g config).length ∧
      (pageRank ar pool g config).ranks = referenceRanks ar g config := by
  have hcourse : pageRankCourse ar pool g config = referenceCourse ar g config := by
    unfold pageRankCourse referenceCourse
    split
    next => rfl
    next hpos =>
      rw [map_course (P := Ready ar g) (fun s h => h.step pool config)
        (fun s h => h.step_eq pool config hzero hsum) (ready_new ar g), State.new,
        Nat.max_eq_left (Nat.pos_of_ne_zero hpos)]
  obtain ⟨hlength, hranks⟩ := pageRank_eq_course ar pool g config
  refine ⟨hcourse, hlength.trans (congrArg List.length hcourse), ?_⟩
  rw [hranks, hcourse, referenceRanks_eq_course]

/-! ### Dead ends, a loop and a double edge -/

/-- Two edges into vertex 1, which leads to itself; the other two vertices are dead ends. -/
def sinks : Graph where
  offsets := #[0, 2, 3, 3, 3]
  targets := #[1, 1, 1]
  weights := #[4, 4, 1]
  first_offset := rfl
  last_offset := rfl
  sorted_offsets := by decide
  size_weights := rfl
  target_lt := by simp

/-- Exact ranks, but sums that are cut off to whole hundredths. -/
def hundredths : Arithmetic Rat Rat :=
  { exact with sumAdd := fun x y => ((x + y) * 100).floor / 100 }

/-- What has been cut off is not cut off further. -/
theorem zeroNeutral_hundredths : hundredths.ZeroNeutral := by
  intro terms
  induction terms using List.reverseRecOn with
  | nil => decide +kernel
  | append_singleton terms x _ =>
    rw [List.foldl_concat]
    generalize terms.foldl hundredths.sumAdd hundredths.sumZero = sum
    show (((((sum + x) * 100).floor / 100 + 0) * 100 : Rat).floor / 100 : Rat) =
      ((sum + x) * 100).floor / 100
    rw [add_zero, div_mul_cancel₀ _ (by decide), Rat.floor_intCast]

/-- The general theorem at this graph, with sums that are cut off: round 4 moves no vertex, so both
    iterations stop there, long before their limit, with the same ranks. -/
theorem pageRank_agrees_sinks :
    hundredths.ZeroNeutral ∧ sinks.numNodes < 1024 ∧
      (pageRank hundredths ⟨2⟩ sinks ⟨1 / 2, 1 / 100, 10⟩).activity = [4, 4, 1, 0] ∧
      (referenceCourse hundredths sinks ⟨1 / 2, 1 / 100, 10⟩).length = 4 ∧
      pageRankCourse hundredths ⟨2⟩ sinks ⟨1 / 2, 1 / 100, 10⟩ =
        referenceCourse hundredths sinks ⟨1 / 2, 1 / 100, 10⟩ ∧
      (pageRank hundredths ⟨2⟩ sinks ⟨1 / 2, 1 / 100, 10⟩).ranks =
        referenceRanks hundredths sinks ⟨1 / 2, 1 / 100, 10⟩ := by
  have hactivity :
      (pageRank hundredths ⟨2⟩ sinks ⟨1 / 2, 1 / 100, 10⟩).activity = [4, 4, 1, 0] := by
    decide +kernel
  have hshort : sinks.numNodes < 1024 := by decide
  obtain ⟨hcourse, hlength, hranks⟩ := pageRank_agrees hundredths zeroNeutral_hundredths ⟨2⟩ sinks
    ⟨1 / 2, 1 / 100, 10⟩ (.inl hshort)
  rw [hactivity] at hlength
  exact ⟨zeroNeutral_hundredths, hshort, hactivity, hlength.symm, hcourse, hranks⟩

end SparseGraph.Rank
