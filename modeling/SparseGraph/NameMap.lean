namespace SparseGraph

/-!
# Maps from names

Maps whose keys are names are listed in the order of the names, compared code point by code
point; a name that is given twice keeps its last value.

* `insertName` — insertion into a list in order of names;
* `NameMap` — a list whose names strictly ascend;
* `NameMap.insert`, `NameMap.get?`, `NameMap.ofList` — its operations.
-/

/-- Put `value` under `name` into a list in order of names, in place of an earlier value. -/
def insertName {α : Type} (name : String) (value : α) : List (String × α) → List (String × α)
  | [] => [(name, value)]
  | (key, old) :: rest =>
    if name < key then (name, value) :: (key, old) :: rest
    else if key < name then (key, old) :: insertName name value rest
    else (key, value) :: rest

theorem fst_mem_insertName {α : Type} {name : String} {value : α} {entries : List (String × α)}
    {k : String} (h : k ∈ (insertName name value entries).map Prod.fst) :
    k = name ∨ k ∈ entries.map Prod.fst := by
  induction entries with
  | nil => simpa [insertName] using h
  | cons e rest ih =>
    obtain ⟨key, old⟩ := e
    rw [insertName] at h
    split at h
    · simpa using h
    · split at h
      · rcases List.mem_cons.1 h with h | h
        · exact .inr (h ▸ List.mem_cons_self)
        · exact (ih h).imp_right (List.mem_cons_of_mem _)
      · exact .inr (by simpa using h)

theorem pairwise_insertName {α : Type} {name : String} {value : α} {entries : List (String × α)}
    (h : (entries.map Prod.fst).Pairwise (· < ·)) :
    ((insertName name value entries).map Prod.fst).Pairwise (· < ·) := by
  induction entries with
  | nil => simp [insertName]
  | cons e rest ih =>
    obtain ⟨key, old⟩ := e
    have hr := List.pairwise_cons.1 h
    rw [insertName]
    split
    next hlt =>
      refine List.pairwise_cons.2 ⟨fun k hk => ?_, h⟩
      rcases List.mem_cons.1 hk with rfl | hk
      · exact hlt
      · exact String.lt_trans hlt (hr.1 k hk)
    next =>
      split
      next hlt =>
        refine List.pairwise_cons.2 ⟨fun k hk => ?_, ih hr.2⟩
        rcases fst_mem_insertName hk with rfl | hk
        · exact hlt
        · exact hr.1 k hk
      next => exact h

/-- A map from names, listed in their order. -/
structure NameMap (α : Type) where
  entries : List (String × α)
  sorted : (entries.map Prod.fst).Pairwise (· < ·)

namespace NameMap

variable {α : Type}

/-- The map without names. -/
def empty : NameMap α :=
  ⟨[], .nil⟩

instance : Inhabited (NameMap α) := ⟨empty⟩

/-- The map with `value` under `name`. -/
def insert (m : NameMap α) (name : String) (value : α) : NameMap α :=
  ⟨insertName name value m.entries, pairwise_insertName m.sorted⟩

/-- The value under `name`. -/
def get? (m : NameMap α) (name : String) : Option α :=
  m.entries.lookup name

/-- The map of these entries; of entries with one name the last counts. -/
def ofList (entries : List (String × α)) : NameMap α :=
  entries.foldl (fun m (name, value) => m.insert name value) empty

/-- The number of names. -/
def size (m : NameMap α) : Nat :=
  m.entries.length

end NameMap

end SparseGraph
