import SparseGraph.Cell
import Mathlib.Data.Nat.Find

namespace SparseGraph

/-!
# Lowering a cell

A cell that is lowered holds the minimum of what it held and what it is lowered to.

* `getD_lowered?` — what one cell holds after it was to be lowered;
* `lowerAt?_eq_some_iff`, `lowerAt?_eq_none_iff` — when a cell of an array changes;
* `getD_of_lowerAt?` — what the cells of the array hold if one of them changes;
* `total_replicate`, `length_flatten_eq_total`, `length_le_total` — sums of numbers.
-/

variable {cells after : Array Nat} {i value : Nat}

/-- A cell that was to be lowered holds the minimum, whether it changed or not. -/
theorem getD_lowered? (current value : Nat) :
    (lowered? current value).getD current = min value current := by
  unfold lowered?
  split
  next h => exact (Nat.min_eq_left (Nat.le_of_lt h)).symm
  next h => exact (Nat.min_eq_right (Nat.le_of_not_lt h)).symm

theorem lowerAt?_eq_some_iff :
    lowerAt? cells i value = some after ↔
      value < cells.getD i 0 ∧ cells.setIfInBounds i value = after := by
  unfold lowerAt? lowered?
  split
  next h => simp only [Option.map_some, Option.some.injEq, h, true_and]
  next h => simp only [Option.map_none, reduceCtorEq, h, false_and]

theorem lowerAt?_eq_none_iff : lowerAt? cells i value = none ↔ cells.getD i 0 ≤ value := by
  unfold lowerAt? lowered?
  split
  next h => simp only [Option.map_some, reduceCtorEq, false_iff]; omega
  next h => simp only [Option.map_none, true_iff]; omega

/-- Only cells of the array exceed the default 0. -/
theorem lt_size_of_lt_getD (h : value < cells.getD i 0) : i < cells.size := by
  by_contra hi
  rw [Array.getD_eq_getD_getElem?, Array.getElem?_eq_none (Nat.le_of_not_lt hi)] at h
  exact absurd h (Nat.not_lt_zero _)

theorem size_of_lowerAt? (h : lowerAt? cells i value = some after) : after.size = cells.size := by
  obtain ⟨_, rfl⟩ := lowerAt?_eq_some_iff.1 h
  exact Array.size_setIfInBounds

/-- The lowered cell holds the new value, the others what they held. -/
theorem getD_of_lowerAt? (h : lowerAt? cells i value = some after) (j : Nat) :
    after.getD j 0 = if j = i then value else cells.getD j 0 := by
  obtain ⟨hlt, rfl⟩ := lowerAt?_eq_some_iff.1 h
  have hi := lt_size_of_lt_getD hlt
  simp only [Array.getD_eq_getD_getElem?, Array.getElem?_setIfInBounds]
  by_cases hj : j = i
  · rw [if_pos hj.symm, hj, if_pos hi, if_pos rfl]
    rfl
  · rw [if_neg (Ne.symm hj), if_neg hj]

/-! ### Sums -/

theorem total_replicate (n value : Nat) : total (List.replicate n value) = n * value := by
  induction n with
  | zero => rw [Nat.zero_mul]; rfl
  | succ n ih =>
    rw [List.replicate_succ, total, ih, Nat.succ_mul, Nat.add_comm]

theorem length_flatten_eq_total {α : Type} (lists : List (List α)) :
    lists.flatten.length = total (lists.map List.length) := by
  induction lists with
  | nil => rfl
  | cons l lists ih => rw [List.flatten_cons, List.length_append, ih, List.map_cons, total]

/-- There are no more numbers than they add up to if none is 0. -/
theorem length_le_total {ns : List Nat} (h : ∀ n ∈ ns, 1 ≤ n) : ns.length ≤ total ns := by
  induction ns with
  | nil => exact Nat.le_refl 0
  | cons n ns ih =>
    obtain ⟨hn, hns⟩ := List.forall_mem_cons.1 h
    have hle := ih hns
    rw [List.length_cons, total]
    omega

end SparseGraph
