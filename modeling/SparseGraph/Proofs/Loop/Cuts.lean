import SparseGraph.Loop.Visits
import SparseGraph.Proofs.Loop

namespace SparseGraph

/-!
# Every cut of a loop

A loop yields the same however its pool cuts it, and in whatever order the workers get on with their
pieces: what it yields when one worker goes through all items from left to right.

* `Pool.cuts_cut` — halving as long as there are workers is one of the ways to cut a loop;
* `Pieces.Visits.count_indices` — every index is visited once;
* `Pieces.mapReduce_of_neutral` — results are combined as in one sequence;
* `Pieces.forEachPush_eq`, `Pieces.flatten_forEachPush` — the buffers and what stands in them;
* `Pool.Cuts.length_leaves_le` — without stealing there are no more pieces than workers;
* `Pool.loops_sequential` — all of this for every cut.
-/

variable {α β : Type}

/-! ### The pieces -/

namespace Pieces

/-- A loop that is large enough for one piece is large enough for all its pieces. -/
theorem length_leaves_mul_le {least : Nat} {p : Pieces α} (h : p.CutAtLeast least)
    (hleast : least ≤ p.toList.length) : p.leaves.length * least ≤ p.toList.length := by
  induction p with
  | piece items =>
    rw [leaves, List.length_singleton, Nat.one_mul]
    exact hleast
  | join left right ihl ihr =>
    obtain ⟨hleft, hright, hl, hr⟩ := h
    rw [leaves, toList, List.length_append, List.length_append, Nat.add_mul]
    exact Nat.add_le_add (ihl hl hleft) (ihr hr hright)

/-- Halving leaves no side smaller than the bound. -/
theorem cutAtLeast_halving (splits least : Nat) (items : List α) :
    (halving splits least items).CutAtLeast least := by
  fun_induction halving splits least items with
  | case1 => exact trivial
  | case2 => exact trivial
  | case3 splits items _ hlarge ihl ihr =>
    refine ⟨?_, ?_, ihl, ihr⟩
    · rw [toList_halving, List.length_take]
      omega
    · rw [toList_halving, List.length_drop]
      omega

/-! ### What a loop yields -/

/-- **Every index is visited once,** and nothing else is. -/
theorem Visits.count_indices {p : Pieces Nat} {order : List Nat} {first last : Nat}
    (h : p.Visits order) (hp : p.toList = indices first last) (i : Nat) :
    order.count i = if first ≤ i ∧ i < last then 1 else 0 := by
  have hmem : i ∈ indices first last ↔ first ≤ i ∧ i < last := by
    unfold indices
    rw [List.mem_range'_1]
    omega
  have hnodup : (indices first last).Nodup := List.nodup_range' 1
  rw [h.perm.count_eq, hp, hnodup.count]
  exact if_congr hmem rfl rfl

/-- **Results are combined as in one sequence.** The order of the operands is kept, so the
    combination need not be commutative. -/
theorem mapReduce_of_neutral {identity : β} {map : α → β} {combine : β → β → β}
    (assoc : ∀ x y z, combine (combine x y) z = combine x (combine y z))
    (neutral : ∀ x, combine x identity = x) (p : Pieces α) :
    p.mapReduce identity map combine =
      p.toList.foldl (fun result a => combine result (map a)) identity := by
  rw [mapReduce_eq_foldl assoc (fun _ => neutral _), List.foldl_map]

/-- The buffers are what the pieces push, those aside that push nothing. -/
theorem forEachPush_eq (op : α → List β) (p : Pieces α) :
    p.forEachPush op = (p.leaves.map (List.flatMap op)).filter (!·.isEmpty) := by
  induction p with
  | piece items => rfl
  | join left right ihl ihr =>
    rw [forEachPush, ihl, ihr, leaves, List.map_append, List.filter_append]

/-- No buffer is empty. -/
theorem nil_notMem_forEachPush (op : α → List β) (p : Pieces α) : [] ∉ p.forEachPush op := by
  rw [forEachPush_eq]
  intro h
  exact absurd (List.mem_filter.1 h).2 (by simp)

/-- **The buffers hold what the items push,** in the order of the items. -/
theorem flatten_forEachPush (op : α → List β) (p : Pieces α) :
    (p.forEachPush op).flatten = p.toList.flatMap op := by
  induction p with
  | piece items =>
    -- A buffer that is left out would have added nothing.
    rw [forEachPush, toList]
    cases hpushed : items.flatMap op with
    | nil => rfl
    | cons b bs => exact List.flatten_singleton
  | join left right ihl ihr =>
    rw [forEachPush, List.flatten_append, ihl, ihr, toList, List.flatMap_append]

end Pieces

/-! ### Pools -/

namespace LoopOptions

theorem minPiece_pos (o : LoopOptions) (workers length : Nat) :
    0 < o.minPiece workers length := by
  unfold minPiece
  split <;> omega

/-- Without stealing, a piece of the least size for each worker covers the loop. -/
theorem length_le_mul_minPiece {o : LoopOptions} {workers : Nat} (hw : 1 ≤ workers)
    (hsteal : o.steal = false) (length : Nat) :
    length ≤ workers * o.minPiece workers length := by
  unfold minPiece
  rw [hsteal]
  have hceil : length ≤ workers * ((length + workers - 1) / workers) := by
    have hdiv := Nat.div_add_mod (length + workers - 1) workers
    have hmod := Nat.mod_lt (length + workers - 1) hw
    omega
  exact Nat.le_trans hceil (Nat.mul_le_mul_left workers (Nat.le_max_left _ _))

end LoopOptions

namespace Pool

/-- **Halving is one of the ways** to cut a loop. -/
theorem cuts_cut (pool : Pool) (o : LoopOptions) (items : List α) :
    pool.Cuts o items (pool.cut o items) where
  toList_eq := pool.toList_cut o items
  cutAtLeast := Pieces.cutAtLeast_halving _ _ items

/-- **Without stealing there are no more pieces than workers.** -/
theorem Cuts.length_leaves_le {pool : Pool} {o : LoopOptions} {items : List α} {p : Pieces α}
    (h : pool.Cuts o items p) (hw : 1 ≤ pool.workers) (hsteal : o.steal = false) :
    p.leaves.length ≤ pool.workers := by
  have hcover := LoopOptions.length_le_mul_minPiece hw hsteal items.length
  have hpos := o.minPiece_pos pool.workers items.length
  cases p with
  | piece items => exact hw
  | join left right =>
    have hlarge : o.minPiece pool.workers items.length ≤ (left.join right).toList.length := by
      obtain ⟨hleft, _⟩ := h.cutAtLeast
      rw [Pieces.toList, List.length_append]
      omega
    have hmul := Pieces.length_leaves_mul_le h.cutAtLeast hlarge
    rw [h.toList_eq] at hmul
    exact Nat.le_of_mul_le_mul_right (Nat.le_trans hmul hcover) hpos

/-- **A loop yields what one worker would yield,** for every way in which the pool may cut it, the
    way of halving among them. Over a range, every index is visited once, in whatever order the
    visits are interleaved, the order from left to right among them, and results are combined as
    from left to right, provided that the combination is associative and has `identity` for a
    neutral element. The buffers of a loop that pushes hold what the items push, in the order of the
    items, and none of them is empty. Without stealing there is no more than one piece for each
    worker. -/
theorem loops_sequential (pool : Pool) (hw : 1 ≤ pool.workers) (o : LoopOptions) :
    (∀ (first last : Nat) (p : Pieces Nat), pool.Cuts o (indices first last) p →
      p.Visits (indices first last) ∧
      (∀ order, p.Visits order →
        ∀ i, order.count i = if first ≤ i ∧ i < last then 1 else 0) ∧
      ∀ (β : Type) (identity : β) (map : Nat → β) (combine : β → β → β),
        (∀ x y z, combine (combine x y) z = combine x (combine y z)) →
        (∀ x, combine identity x = x) → (∀ x, combine x identity = x) →
        p.mapReduce identity map combine =
          (indices first last).foldl (fun result i => combine result (map i)) identity) ∧
    (∀ (α : Type) (items : List α) (p : Pieces α), pool.Cuts o items p →
      (∀ (β : Type) (op : α → List β),
        [] ∉ p.forEachPush op ∧ (p.forEachPush op).flatten = items.flatMap op) ∧
      (o.steal = false → p.leaves.length ≤ pool.workers)) ∧
    ∀ (α : Type) (items : List α), pool.Cuts o items (pool.cut o items) := by
  refine ⟨fun first last p hp => ⟨?_, fun order hvisits i => ?_, ?_⟩, fun α items p hp => ?_,
    fun α items => pool.cuts_cut o items⟩
  · rw [← hp.toList_eq]
    exact p.visits_toList
  · exact hvisits.count_indices hp.toList_eq i
  · intro β identity map combine assoc _ neutral
    rw [Pieces.mapReduce_of_neutral assoc neutral, hp.toList_eq]
  · refine ⟨fun β op => ⟨p.nil_notMem_forEachPush op, ?_⟩, hp.length_leaves_le hw⟩
    rw [p.flatten_forEachPush op, hp.toList_eq]

/-! ### Seven indices for three workers -/

/-- The general theorem for three workers, each with one block of the indices from 2 to 8: of three
    pieces one would be too small, so two workers get a piece. -/
theorem loops_sequential_blocks :
    let pool : Pool := ⟨3⟩
    let blocks : Pieces Nat := .join (.piece [2, 3, 4]) (.piece [5, 6, 7, 8])
    1 ≤ pool.workers ∧ pool.Cuts .partitioned (indices 2 9) blocks ∧
      blocks.Visits [2, 3, 4, 5, 6, 7, 8] ∧ blocks.Visits [5, 2, 6, 3, 4, 7, 8] ∧
      [5, 2, 6, 3, 4, 7, 8].count 6 = 1 ∧ [5, 2, 6, 3, 4, 7, 8].count 9 = 0 ∧
      blocks.mapReduce [] (fun i => [i, i]) (· ++ ·) =
        [2, 2, 3, 3, 4, 4, 5, 5, 6, 6, 7, 7, 8, 8] ∧
      (blocks.forEachPush fun i => if i < 5 then [] else [i]).flatten = [5, 6, 7, 8] ∧
      blocks.leaves.length ≤ 3 := by
  intro pool blocks
  have hw : 1 ≤ pool.workers := by decide
  have hcuts : pool.Cuts .partitioned (indices 2 9) blocks :=
    ⟨rfl, by decide, by decide, trivial, trivial⟩
  have hvisits : blocks.Visits [5, 2, 6, 3, 4, 7, 8] :=
    .join .piece .piece
      (.right (.left (.right (.left (.left (.right (.right .done)))))))
  obtain ⟨hrange, hitems, _⟩ := loops_sequential pool hw .partitioned
  obtain ⟨hsequence, hcount, hreduce⟩ := hrange 2 9 blocks hcuts
  obtain ⟨hpush, hleaves⟩ := hitems Nat (indices 2 9) blocks hcuts
  refine ⟨hw, hcuts, hsequence, hvisits, hcount _ hvisits 6, hcount _ hvisits 9, ?_, ?_, hleaves rfl⟩
  · exact hreduce (List Nat) [] (fun i => [i, i]) (· ++ ·) List.append_assoc List.nil_append
      List.append_nil
  · exact (hpush Nat _).2

end Pool

end SparseGraph
