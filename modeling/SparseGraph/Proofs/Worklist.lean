import SparseGraph.Worklist
import Mathlib.Data.Nat.Find

namespace SparseGraph

/-!
# Items of a worklist

A worklist is seen here as the items that are pending in it, whatever their buckets.

* `mem_push`, `mem_extend` — filing adds the items that are filed;
* `mem_popMin?` — taking a bucket out splits the items into those taken and those left;
* `index_of_popMin?`, `lt_index_of_popMin?` — those taken have the least index, those left have
  greater ones;
* `not_mem_of_popMin?` — no bucket can be taken only if nothing is pending.
-/

variable {α : Type} {index : α → Nat}

instance : Membership α (Worklist α index) :=
  ⟨fun w a => ∃ b ∈ w.buckets, a ∈ b.2⟩

/-- An item is filed in one of the buckets, and the others stay where they are. -/
theorem exists_mem_fileUnder {i : Nat} {item a : α} {buckets : List (Nat × Array α)} :
    (∃ b ∈ fileUnder i item buckets, a ∈ b.2) ↔ a = item ∨ ∃ b ∈ buckets, a ∈ b.2 := by
  induction buckets with
  | nil => simp [fileUnder]
  | cons b rest ih =>
    obtain ⟨j, items⟩ := b
    rw [fileUnder]
    split
    next => simp
    next =>
      split
      next =>
        simp only [List.mem_cons, exists_eq_or_imp, Array.mem_push]
        constructor
        · rintro ((h | h) | h)
          · exact .inr (.inl h)
          · exact .inl h
          · exact .inr (.inr h)
        · rintro (h | h | h)
          · exact .inl (.inr h)
          · exact .inl (.inl h)
          · exact .inr h
      next =>
        simp only [List.mem_cons, exists_eq_or_imp, ih]
        exact or_left_comm

namespace Worklist

variable {w rest : Worklist α index} {i : Nat} {items : Array α} {a : α}

theorem not_mem_empty : a ∉ (empty : Worklist α index) := by
  rintro ⟨b, hb, _⟩
  exact absurd hb List.not_mem_nil

theorem mem_push {item : α} : a ∈ w.push item ↔ a = item ∨ a ∈ w :=
  exists_mem_fileUnder

theorem mem_extend {added : List α} : a ∈ w.extend added ↔ a ∈ w ∨ a ∈ added := by
  induction added generalizing w with
  | nil => simp [extend]
  | cons b added ih =>
    show a ∈ (w.push b).extend added ↔ _
    rw [ih, mem_push, List.mem_cons]
    constructor
    · rintro ((h | h) | h)
      · exact .inr (.inl h)
      · exact .inl h
      · exact .inr (.inr h)
    · rintro (h | h | h)
      · exact .inl (.inr h)
      · exact .inl (.inl h)
      · exact .inr h

/-- The buckets of a worklist from which the least one is taken. -/
theorem buckets_of_popMin? (h : w.popMin? = some (i, items, rest)) :
    w.buckets = (i, items) :: rest.buckets := by
  obtain ⟨buckets, size, ha, hn, hf, hs⟩ := w
  cases buckets with
  | nil => cases h
  | cons b tail =>
    obtain ⟨j, its⟩ := b
    cases h
    rfl

/-- Taking a bucket out splits the pending items. -/
theorem mem_popMin? (h : w.popMin? = some (i, items, rest)) : a ∈ w ↔ a ∈ items ∨ a ∈ rest := by
  show (∃ b ∈ w.buckets, a ∈ b.2) ↔ _
  simp only [buckets_of_popMin? h, List.mem_cons, exists_eq_or_imp]
  rfl

/-- The items taken out are filed under the number of their bucket. -/
theorem index_of_popMin? (h : w.popMin? = some (i, items, rest)) (ha : a ∈ items) :
    index a = i := by
  refine w.filed (i, items) ?_ a ha
  rw [buckets_of_popMin? h]
  exact List.mem_cons_self

/-- **The least bucket is taken.** The items left are filed under greater numbers. -/
theorem lt_index_of_popMin? (h : w.popMin? = some (i, items, rest)) (ha : a ∈ rest) :
    i < index a := by
  obtain ⟨b, hb, hab⟩ := ha
  have hasc := w.ascending
  rw [buckets_of_popMin? h, List.map_cons, List.pairwise_cons] at hasc
  rw [rest.filed b hb a hab]
  exact hasc.1 b.1 (List.mem_map_of_mem hb)

/-- Some bucket can be taken as long as anything is pending. -/
theorem not_mem_of_popMin? (h : w.popMin? = none) : a ∉ w := by
  obtain ⟨buckets, size, ha, hn, hf, hs⟩ := w
  cases buckets with
  | nil =>
    rintro ⟨b, hb, _⟩
    exact absurd hb List.not_mem_nil
  | cons b tail =>
    obtain ⟨j, its⟩ := b
    cases h

end Worklist

end SparseGraph
