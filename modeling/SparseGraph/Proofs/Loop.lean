import Mathlib.Algebra.BigOperators.Group.List.Basic
import SparseGraph.Loop

namespace SparseGraph

/-!
# Loops and how they are cut

A cut only parts the items of a loop. What they are mapped to and combined to is therefore the same
as in one sequence, provided that the combination is associative and may begin anew in each piece.

* `Pieces.mapReduce_eq_foldl`, `Pieces.mapReduce_eq_sum` — a loop that combines results;
* `Pool.toList_cut` — the pool hands out all items in order;
* `Pool.cut_of_lt` — and does not cut a loop that is too short for two pieces;
* `indices_zero` — the indices of a loop over all vertices.
-/

variable {α β : Type}

namespace Pieces

/-- **Combining the pieces** is combining all items in one sequence. The beginning of a piece must
    leave alone whatever has been combined so far. -/
theorem mapReduce_eq_foldl {identity : β} {map : α → β} {combine : β → β → β}
    (assoc : ∀ x y z, combine (combine x y) z = combine x (combine y z))
    (neutral : ∀ terms : List β,
      combine (terms.foldl combine identity) identity = terms.foldl combine identity)
    (p : Pieces α) :
    p.mapReduce identity map combine = (p.toList.map map).foldl combine identity := by
  induction p with
  | piece items => exact List.foldl_map.symm
  | join left right ihl ihr =>
    have : Std.Associative combine := ⟨assoc⟩
    have hpull : ∀ (total : β) (terms : List β),
        combine total (terms.foldl combine identity) =
          terms.foldl combine (combine total identity) :=
      fun _ _ => List.foldl_assoc.symm
    rw [mapReduce, ihl, ihr, hpull, neutral, toList, List.map_append, List.foldl_append]

/-- Numbers are added up, however the loop is cut. -/
theorem mapReduce_eq_sum {M : Type} [AddMonoid M] (map : α → M) (p : Pieces α) :
    p.mapReduce 0 map (· + ·) = (p.toList.map map).sum := by
  rw [mapReduce_eq_foldl add_assoc fun terms => add_zero _, List.sum_eq_foldl]

/-- Cutting in halves keeps the items in order. -/
theorem toList_halving (splits least : Nat) (items : List α) :
    (halving splits least items).toList = items := by
  fun_induction halving splits least items with
  | case1 => rfl
  | case2 => rfl
  | case3 splits items _ _ ihl ihr => rw [toList, ihl, ihr, List.take_append_drop]

end Pieces

namespace Pool

/-- **The pool hands out all items in order.** -/
theorem toList_cut (pool : Pool) (o : LoopOptions) (items : List α) :
    (pool.cut o items).toList = items :=
  Pieces.toList_halving _ _ items

/-- A loop that is shorter than two pieces is one piece. -/
theorem cut_of_lt (pool : Pool) {o : LoopOptions} {items : List α}
    (h : items.length < 2 * o.minPiece pool.workers items.length) :
    pool.cut o items = .piece items := by
  have hhalf : items.length / 2 < o.minPiece pool.workers items.length := by omega
  unfold cut
  rw [Pieces.halving, if_pos hhalf, ite_self]

end Pool

/-- The indices of a loop over the first ones. -/
theorem indices_zero (n : Nat) : indices 0 n = List.range n := by
  rw [indices, Nat.sub_zero, List.range_eq_range']

end SparseGraph
