import SparseGraph.Graph.Basic
import SparseGraph.Proofs.Text.Numerals

namespace SparseGraph.Graph

/-!
# Graphs of given arrays

Arrays are accepted just in case there is a graph with these arrays, and that is the graph.

* `ext_arrays` — a graph is its arrays;
* `exists_last_offset`, `toList_offsets` — the offsets end in the number of edges;
* `firstDescent?_eq_none_iff` — offsets without a descent are in order;
* `ofParts_eq_ok_iff` — the arrays of a graph give that graph back, and no others are accepted.
-/

/-- A graph is its arrays. -/
theorem ext_arrays {g h : Graph} (ho : g.offsets = h.offsets) (ht : g.targets = h.targets)
    (hw : g.weights = h.weights) : g = h := by
  cases g
  cases h
  cases ho
  cases ht
  cases hw
  rfl

/-- The last offset is the number of edges. -/
theorem exists_last_offset (g : Graph) :
    ∃ last, g.offsets.back? = some last ∧ last.toNat = g.numEdges := by
  have hlast := g.last_offset
  cases hback : g.offsets.back? with
  | none =>
    rw [hback] at hlast
    cases hlast
  | some last =>
    rw [hback, Option.map_some, Option.some.injEq] at hlast
    exact ⟨last, rfl, hlast⟩

/-- There are no more edges than a word can count. -/
theorem numEdges_le (g : Graph) : g.numEdges ≤ Text.maxWord := by
  obtain ⟨last, _, hlast⟩ := g.exists_last_offset
  rw [← hlast]
  exact Text.toNat_le_maxWord last

/-- The offsets are one for each vertex, and behind them the number of edges. -/
theorem toList_offsets (g : Graph) :
    g.offsets.toList = g.offsets.toList.take g.numNodes ++ [UInt32.ofNat g.numEdges] := by
  obtain ⟨last, hback, hlast⟩ := g.exists_last_offset
  have hsize := g.size_offsets
  have hdrop : g.offsets.toList.drop g.numNodes = [last] := by
    rw [Array.back?_eq_getElem?, hsize, Nat.add_sub_cancel, Array.getElem?_eq_some_iff] at hback
    obtain ⟨hlt, hget⟩ := hback
    have hend : g.offsets.toList.drop (g.numNodes + 1) = [] := by
      apply List.drop_eq_nil_of_le
      simp only [Array.length_toList, hsize, Nat.le_refl]
    rw [List.drop_eq_getElem_cons (by simpa using hlt), hend, Array.getElem_toList, hget]
  rw [← hlast, UInt32.ofNat_toNat, ← hdrop, List.take_append_drop]

/-- Words without a descent are in order. -/
theorem firstDescent?_eq_none_iff {ws : List UInt32} :
    firstDescent? ws = none ↔ ws.Pairwise (· ≤ ·) := by
  refine ⟨pairwise_of_firstDescent?, fun h => ?_⟩
  fun_induction firstDescent? ws with
  | case1 => rfl
  | case2 a => rfl
  | case3 a b rest hba =>
    -- The first two words are in order, so the second is not the lesser one.
    have hab : a ≤ b := (List.pairwise_cons.1 h).1 b List.mem_cons_self
    exact absurd hba (UInt32.not_lt.2 hab)
  | case4 a b rest hba ih =>
    rw [ih (List.pairwise_cons.1 h).2]
    rfl

/-- The arrays of a graph that was accepted. -/
theorem arrays_of_ofParts {g : Graph} {offsets targets weights : Array UInt32}
    (h : ofParts offsets targets weights = .ok g) :
    g.offsets = offsets ∧ g.targets = targets ∧ g.weights = weights := by
  unfold ofParts at h
  split at h
  next =>
    split at h
    · cases h
    · split at h
      · cases h
      · split at h
        · cases h
        · split at h
          · cases h
          · split at h
            · cases h
            · cases h
              exact ⟨rfl, rfl, rfl⟩
  next => cases h

/-- **The arrays of a graph are accepted:** each of the checks holds by a field of the graph. -/
theorem ofParts_arrays (g : Graph) : ofParts g.offsets g.targets g.weights = .ok g := by
  obtain ⟨last, hl, hlast⟩ := g.exists_last_offset
  unfold numEdges at hlast
  have hdescent := firstDescent?_eq_none_iff.2 g.sorted_offsets
  have htargets : g.targets.find? (fun t => g.offsets.size - 1 ≤ t.toNat) = none := by
    rw [Array.find?_eq_none]
    intro t ht
    have hlt := g.target_lt t ht
    simp only [decide_eq_true_eq]
    omega
  unfold ofParts
  split
  next first last' hf hl' =>
    rw [g.first_offset, Option.some.injEq] at hf
    rw [hl, Option.some.injEq] at hl'
    subst hf hl'
    rw [dif_neg (by simp), dif_neg (by simp [hlast]), dif_neg (by simp [g.size_weights])]
    split
    next heq => rw [hdescent] at heq; cases heq
    next =>
      split
      next heq => rw [htargets] at heq; cases heq
      next => rfl
  next hnone => exact (hnone 0 last g.first_offset hl).elim

/-- **Arrays are accepted just in case a graph has them,** and that graph is the result. -/
theorem ofParts_eq_ok_iff {g : Graph} {offsets targets weights : Array UInt32} :
    ofParts offsets targets weights = .ok g ↔
      g.offsets = offsets ∧ g.targets = targets ∧ g.weights = weights := by
  constructor
  · exact arrays_of_ofParts
  · rintro ⟨rfl, rfl, rfl⟩
    exact ofParts_arrays g

end SparseGraph.Graph
