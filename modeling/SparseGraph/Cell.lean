namespace SparseGraph

/-!
# Shared cells

What several workers may do to one cell at once: lower a number, add to a number, raise a flag.
Each is one indivisible step, so a history of a cell is a sequence of these steps.

* `lowered?` — the new content of a cell that is to be lowered;
* `lowerAt?` — the same for a cell of an array, which makes the sum of the cells drop;
* `added` — the new content of a cell that is added to;
* `Flag` — a flag that is raised during a round and read after it.
-/

/-- What a cell that holds `current` holds after it is lowered to `value`, if that changes it. -/
def lowered? (current value : Nat) : Option Nat :=
  if value < current then some value else none

/-- The cells with cell `i` lowered to `value`, if that changes it. -/
def lowerAt? (cells : Array Nat) (i value : Nat) : Option (Array Nat) :=
  (lowered? (cells.getD i 0) value).map (cells.setIfInBounds i ·)

/-- The sum of numbers. -/
def total : List Nat → Nat
  | [] => 0
  | n :: ns => n + total ns

theorem total_set_add_getElem (l : List Nat) (i value : Nat) (h : i < l.length) :
    total (l.set i value) + l[i] = total l + value := by
  induction l generalizing i with
  | nil => simp at h
  | cons a l ih =>
    cases i with
    | zero => simp only [List.set_cons_zero, List.getElem_cons_zero, total]; omega
    | succ i =>
      have := ih i (by simpa using h)
      simp only [List.set_cons_succ, total, List.getElem_cons_succ] at this ⊢
      omega

/-- Lowering a cell lowers the sum of the cells. -/
theorem total_lt_of_lowerAt? {cells after : Array Nat} {i value : Nat}
    (h : lowerAt? cells i value = some after) : total after.toList < total cells.toList := by
  unfold lowerAt? lowered? at h
  split at h
  next hlt =>
    cases h
    -- Beyond the cells there is nothing below the default 0.
    have hi : i < cells.size := by
      rcases Nat.lt_or_ge i cells.size with hi | hi
      · exact hi
      · simp [Array.getD_eq_getD_getElem?, Array.getElem?_eq_none hi] at hlt
    have hl : i < cells.toList.length := by simpa using hi
    have hget : cells.getD i 0 = cells.toList[i] := by
      simp [Array.getD_eq_getD_getElem?, Array.getElem?_eq_getElem hi]
    have := total_set_add_getElem cells.toList i value hl
    rw [Array.toList_setIfInBounds]
    omega
  next => cases h

/-- What a cell that holds `current` holds after `value` is added. -/
def added (current value : Float32) : Float32 :=
  current + value

/-- A flag that is raised if anyone asks for it. -/
structure Flag where
  raised : Bool := false
deriving DecidableEq, Repr

/-- The flag after a worker contributed `value`. -/
def Flag.update (f : Flag) (value : Bool) : Flag :=
  if value then ⟨true⟩ else f

end SparseGraph
