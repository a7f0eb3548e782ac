namespace SparseGraph

/-!
# Bucket worklists

Pending items are filed under a bucket number that a given index assigns to them. Whole buckets are
taken out, the one with the least number first, and a bucket keeps its items in the order in which
they came.

* `Worklist` — buckets with strictly ascending numbers, none of them empty, and the number of
  pending items, which is counted along;
* `Worklist.push`, `Worklist.extend` — file one item, several items;
* `Worklist.popMin?` — take out the bucket with the least number;
* `Worklist.drain` — take out all buckets;
* `Request`, `Reply`, `Worklist.serve` — one operation as a request, and what it tells.
-/

/-- File an item under bucket `i`. -/
def fileUnder {α : Type} (i : Nat) (item : α) : List (Nat × Array α) → List (Nat × Array α)
  | [] => [(i, #[item])]
  | (j, items) :: rest =>
    if i < j then (i, #[item]) :: (j, items) :: rest
    else if i = j then (j, items.push item) :: rest
    else (j, items) :: fileUnder i item rest

/-- The number of items in buckets. -/
def itemCount {α : Type} (buckets : List (Nat × Array α)) : Nat :=
  buckets.foldr (fun b count => b.2.size + count) 0

/-- Pending items in buckets, each item under the number that `index` gives it. -/
structure Worklist (α : Type) (index : α → Nat) where
  buckets : List (Nat × Array α)
  /-- The number of pending items, counted along with every change. -/
  size : Nat
  ascending : (buckets.map Prod.fst).Pairwise (· < ·)
  nonempty : ∀ b ∈ buckets, b.2 ≠ #[]
  filed : ∀ b ∈ buckets, ∀ a ∈ b.2, index a = b.1
  size_eq : size = itemCount buckets

theorem fst_mem_fileUnder {α : Type} {i j : Nat} {item : α} {buckets : List (Nat × Array α)}
    (h : j ∈ (fileUnder i item buckets).map Prod.fst) :
    j = i ∨ j ∈ buckets.map Prod.fst := by
  induction buckets with
  | nil => simpa [fileUnder] using h
  | cons b rest ih =>
    obtain ⟨k, items⟩ := b
    rw [fileUnder] at h
    split at h
    · simpa using h
    · split at h
      · exact .inr (by simpa using h)
      · rcases List.mem_cons.1 h with h | h
        · exact .inr (h ▸ List.mem_cons_self)
        · exact (ih h).imp_right (List.mem_cons_of_mem _)

theorem ascending_fileUnder {α : Type} {i : Nat} {item : α} {buckets : List (Nat × Array α)}
    (h : (buckets.map Prod.fst).Pairwise (· < ·)) :
    ((fileUnder i item buckets).map Prod.fst).Pairwise (· < ·) := by
  induction buckets with
  | nil => simp [fileUnder]
  | cons b rest ih =>
    obtain ⟨k, items⟩ := b
    have hr := List.pairwise_cons.1 h
    rw [fileUnder]
    split
    next hlt =>
      refine List.pairwise_cons.2 ⟨fun j hj => ?_, h⟩
      rcases List.mem_cons.1 hj with rfl | hj
      · exact hlt
      · exact Nat.lt_trans hlt (hr.1 j hj)
    next hge =>
      split
      next => exact h
      next hne =>
        refine List.pairwise_cons.2 ⟨fun j hj => ?_, ih hr.2⟩
        rcases fst_mem_fileUnder hj with rfl | hj
        · exact Nat.lt_of_le_of_ne (Nat.le_of_not_lt hge) (Ne.symm hne)
        · exact hr.1 j hj

theorem mem_fileUnder {α : Type} {i : Nat} {item : α} {buckets : List (Nat × Array α)}
    {b : Nat × Array α} (h : b ∈ fileUnder i item buckets) :
    b = (i, #[item]) ∨ b ∈ buckets ∨ ∃ items, (i, items) ∈ buckets ∧ b = (i, items.push item) := by
  induction buckets with
  | nil => exact .inl (by simpa [fileUnder] using h)
  | cons c rest ih =>
    obtain ⟨j, items⟩ := c
    rw [fileUnder] at h
    split at h
    next =>
      rcases List.mem_cons.1 h with h | h
      · exact .inl h
      · exact .inr (.inl h)
    next =>
      split at h
      next hij =>
        rcases List.mem_cons.1 h with h | h
        · exact .inr (.inr ⟨items, by simp [hij], by rw [h, hij]⟩)
        · exact .inr (.inl (List.mem_cons_of_mem _ h))
      next =>
        rcases List.mem_cons.1 h with h | h
        · exact .inr (.inl (h ▸ List.mem_cons_self))
        · rcases ih h with h | h | ⟨its, hm, h⟩
          · exact .inl h
          · exact .inr (.inl (List.mem_cons_of_mem _ h))
          · exact .inr (.inr ⟨its, List.mem_cons_of_mem _ hm, h⟩)

theorem itemCount_fileUnder {α : Type} (i : Nat) (item : α) (buckets : List (Nat × Array α)) :
    itemCount (fileUnder i item buckets) = itemCount buckets + 1 := by
  unfold itemCount
  induction buckets with
  | nil => simp [fileUnder]
  | cons b rest ih =>
    rw [fileUnder]
    split
    · simp only [List.foldr_cons, List.size_toArray, List.length_singleton]; omega
    · split
      · simp only [List.foldr_cons, Array.size_push]; omega
      · simp only [List.foldr_cons, ih]; omega

namespace Worklist

variable {α : Type} {index : α → Nat}

/-- The worklist without items. -/
def empty : Worklist α index :=
  ⟨[], 0, .nil, by simp, by simp, rfl⟩

/-- File one item. -/
def push (w : Worklist α index) (item : α) : Worklist α index where
  buckets := fileUnder (index item) item w.buckets
  size := w.size + 1
  ascending := ascending_fileUnder w.ascending
  nonempty := by
    intro b hb
    -- A bucket of the new worklist is new, untouched, or longer by the item.
    rcases mem_fileUnder hb with rfl | hb | ⟨items, _, rfl⟩
    · simp
    · exact w.nonempty b hb
    · simp
  filed := by
    intro b hb a ha
    rcases mem_fileUnder hb with rfl | hb | ⟨items, hm, rfl⟩
    · rw [show a = item by simpa using ha]
    · exact w.filed b hb a ha
    · rcases Array.mem_push.1 ha with ha | rfl
      · exact w.filed _ hm a ha
      · rfl
  size_eq := by rw [itemCount_fileUnder, w.size_eq]

/-- File several items in order. -/
def extend (w : Worklist α index) (items : List α) : Worklist α index :=
  items.foldl push w

/-- The bucket with the least number, and what remains without it. -/
def popMin? (w : Worklist α index) : Option (Nat × Array α × Worklist α index) :=
  match w with
  | ⟨[], _, _, _, _, _⟩ => none
  | ⟨(i, items) :: rest, size, ha, hn, hf, hs⟩ =>
    some (i, items, {
      buckets := rest
      size := size - items.size
      ascending := (List.pairwise_cons.1 ha).2
      nonempty := fun b hb => hn b (List.mem_cons_of_mem _ hb)
      filed := fun b hb => hf b (List.mem_cons_of_mem _ hb)
      size_eq := by
        have hcount : size = items.size + itemCount rest := hs
        omega })

/-- Whether no item is pending. -/
def isEmpty (w : Worklist α index) : Bool :=
  w.size == 0

theorem size_push (w : Worklist α index) (item : α) : (w.push item).size = w.size + 1 := rfl

theorem size_extend (w : Worklist α index) (items : List α) :
    (w.extend items).size = w.size + items.length := by
  induction items generalizing w with
  | nil => rfl
  | cons a items ih =>
    rw [extend, List.foldl_cons, ← extend, ih, size_push, List.length_cons]
    omega

/-- The bucket taken out is not empty, and no other item leaves the worklist. -/
theorem size_popMin? {w rest : Worklist α index} {i : Nat} {items : Array α}
    (h : w.popMin? = some (i, items, rest)) : 0 < items.size ∧ w.size = items.size + rest.size := by
  obtain ⟨buckets, size, ha, hn, hf, hs⟩ := w
  cases buckets with
  | nil => cases h
  | cons b rest =>
    obtain ⟨j, its⟩ := b
    cases h
    refine ⟨Array.size_pos_iff.2 (hn _ List.mem_cons_self), ?_⟩
    have hcount : size = items.size + itemCount rest := hs
    show size = items.size + (size - items.size)
    omega

/-- All buckets with their numbers, in the order in which they are taken out. -/
def drain (w : Worklist α index) : List (Nat × List α) :=
  match _h : w.popMin? with
  | none => []
  | some (i, items, rest) => (i, items.toList) :: rest.drain
termination_by w.size
decreasing_by
  have hsize := size_popMin? _h
  omega

end Worklist

/-! ### Requests -/

/-- An operation on pending items. -/
inductive Request (α : Type) where
  | push (item : α)
  | extend (items : List α)
  | popMin
deriving DecidableEq, Repr

/-- What an operation tells: the bucket taken out, if one is, and what is pending after it. -/
structure Reply (α : Type) where
  taken : Option (Nat × List α)
  size : Nat
  isEmpty : Bool
deriving DecidableEq, Repr

/-- Do what is requested. -/
def Worklist.serve {α : Type} {index : α → Nat} (w : Worklist α index) (request : Request α) :
    Reply α × Worklist α index :=
  let (taken, w) :=
    match request with
    | .push item => (none, w.push item)
    | .extend items => (none, w.extend items)
    | .popMin =>
      match w.popMin? with
      | none => (none, w)
      | some (i, items, rest) => (some (i, items.toList), rest)
  (⟨taken, w.size, w.isEmpty⟩, w)

end SparseGraph
