import Mathlib.Data.List.Sort

namespace SparseGraph

/-!
# Stable sorting by a number

A stable sort by a number is known by two things: the numbers do not descend, and the items of each
number stand in the order in which they came.

* `pairwise_mergeSort_key` — sorting leaves the numbers in order;
* `filter_mergeSort` — it leaves the items of one number in their order;
* `eq_of_sorted_of_filter_eq` — a sorted list is known by its items of each number;
* `eq_mergeSort_of_filter_eq` — what is known by them to be the stable sort of a list.
-/

variable {α : Type} {key : α → Nat} {l l' : List α}

/-- The order by a number. -/
def keyLE (key : α → Nat) (a b : α) : Bool :=
  key a ≤ key b

theorem keyLE_iff {a b : α} : keyLE key a b = true ↔ key a ≤ key b := by
  rw [keyLE, decide_eq_true_eq]

theorem keyLE_trans (a b c : α) (hab : keyLE key a b = true) (hbc : keyLE key b c = true) :
    keyLE key a c = true :=
  keyLE_iff.2 (Nat.le_trans (keyLE_iff.1 hab) (keyLE_iff.1 hbc))

theorem keyLE_total (a b : α) : (keyLE key a b || keyLE key b a) = true := by
  rw [Bool.or_eq_true, keyLE_iff, keyLE_iff]
  exact Nat.le_total _ _

/-- Sorting by a number leaves the numbers in order. -/
theorem pairwise_mergeSort_key (key : α → Nat) (l : List α) :
    (l.mergeSort (keyLE key)).Pairwise (key · ≤ key ·) :=
  (List.pairwise_mergeSort keyLE_trans keyLE_total l).imp keyLE_iff.1

/-- **Sorting leaves the items of one number in their order.** -/
theorem filter_mergeSort (key : α → Nat) (l : List α) (i : Nat) :
    (l.mergeSort (keyLE key)).filter (key · == i) = l.filter (key · == i) := by
  have hsame : (l.filter (key · == i)).Pairwise fun a b => keyLE key a b = true := by
    refine List.pairwise_of_forall_mem_list fun a ha b hb => keyLE_iff.2 ?_
    have hai : key a = i := by simpa using (List.mem_filter.1 ha).2
    have hbi : key b = i := by simpa using (List.mem_filter.1 hb).2
    rw [hai, hbi]
  have hsub : (l.filter (key · == i)).Sublist (l.mergeSort (keyLE key)) :=
    List.sublist_mergeSort keyLE_trans keyLE_total hsame List.filter_sublist
  -- They are still there in their order, and there are no more of them.
  have hfilter := hsub.filter (key · == i)
  simp only [List.filter_filter, Bool.and_self] at hfilter
  refine (hfilter.eq_of_length ?_).symm
  exact ((List.mergeSort_perm l (keyLE key)).filter (key · == i)).length_eq.symm

/-- The first item of one list is not after that of another one with the same items of its
    number. -/
theorem key_head_le {a b : α} (h : (a :: l).Pairwise (key · ≤ key ·))
    (hfilter : (a :: l).filter (key · == key b) = (b :: l').filter (key · == key b)) :
    key a ≤ key b := by
  have hb : b ∈ (a :: l).filter (key · == key b) := by
    rw [hfilter]
    exact List.mem_filter.2 ⟨List.mem_cons_self, beq_self_eq_true _⟩
  rcases List.mem_cons.1 (List.mem_filter.1 hb).1 with rfl | hb
  · exact Nat.le_refl _
  · exact (List.pairwise_cons.1 h).1 b hb

/-- **A sorted list is known by its items of each number.** -/
theorem eq_of_sorted_of_filter_eq (h : l.Pairwise (key · ≤ key ·))
    (h' : l'.Pairwise (key · ≤ key ·))
    (hfilter : ∀ i, l.filter (key · == i) = l'.filter (key · == i)) : l = l' := by
  induction l generalizing l' with
  | nil =>
    cases l' with
    | nil => rfl
    | cons b l' =>
      have hb := hfilter (key b)
      simp at hb
  | cons a l ih =>
    cases l' with
    | nil =>
      have ha := hfilter (key a)
      simp at ha
    | cons b l' =>
      -- Both first items have the least number, so each is the first one of it.
      have hkey : key a = key b :=
        Nat.le_antisymm (key_head_le h (hfilter _)) (key_head_le h' (hfilter _).symm)
      have hheads := hfilter (key b)
      rw [List.filter_cons_of_pos (by simpa using hkey), List.filter_cons_of_pos (by simp)]
        at hheads
      obtain ⟨rfl, htails⟩ := List.cons.inj hheads
      refine congrArg (a :: ·) (ih h.of_cons h'.of_cons fun i => ?_)
      by_cases hi : key a = i
      · rw [← hi]
        exact htails
      · have hrest := hfilter i
        rwa [List.filter_cons_of_neg (by simpa using hi),
          List.filter_cons_of_neg (by simpa using hi)] at hrest

/-- **A stable sort** is a sorted list with the items of each number in their order. -/
theorem eq_mergeSort_of_filter_eq (h : l.Pairwise (key · ≤ key ·))
    (hfilter : ∀ i, l.filter (key · == i) = l'.filter (key · == i)) :
    l = l'.mergeSort (keyLE key) := by
  exact eq_of_sorted_of_filter_eq h (pairwise_mergeSort_key key l')
    fun i => (hfilter i).trans (filter_mergeSort key l' i).symm

end SparseGraph
