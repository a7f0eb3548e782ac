import SparseGraph.NameMap

namespace SparseGraph

/-!
# Maps from their lists

* `foldl_insertName` — entries in order of names are put in one behind another;
* `NameMap.ofList_entries` — a map is that of its own list.
-/

variable {α : Type} {name : String} {value : α} {entries done : List (String × α)}

/-- A name behind all others goes to the end. -/
theorem insertName_of_forall_lt (h : ∀ k ∈ entries.map Prod.fst, k < name) :
    insertName name value entries = entries ++ [(name, value)] := by
  induction entries with
  | nil => rfl
  | cons e rest ih =>
    obtain ⟨key, old⟩ := e
    have hkey : key < name := h key List.mem_cons_self
    rw [insertName, if_neg (String.lt_asymm hkey), if_pos hkey,
      ih fun k hk => h k (List.mem_cons_of_mem _ hk)]
    rfl

/-- **Entries in order of names** are put in one behind another. -/
theorem foldl_insertName (h : ((done ++ entries).map Prod.fst).Pairwise (· < ·)) :
    entries.foldl (fun done (name, value) => insertName name value done) done =
      done ++ entries := by
  induction entries generalizing done with
  | nil => exact (List.append_nil done).symm
  | cons e rest ih =>
    obtain ⟨name, value⟩ := e
    have hbehind : ∀ k ∈ done.map Prod.fst, k < name := by
      rw [List.map_append, List.pairwise_append] at h
      exact fun k hk => h.2.2 k hk name List.mem_cons_self
    have hrest : ((done ++ [(name, value)] ++ rest).map Prod.fst).Pairwise (· < ·) := by
      rwa [List.append_assoc, List.singleton_append]
    rw [List.foldl_cons]
    dsimp only
    rw [insertName_of_forall_lt hbehind, ih hrest, List.append_assoc, List.singleton_append]

namespace NameMap

/-- Maps are told apart by their lists. -/
theorem ext_entries {m m' : NameMap α} (h : m.entries = m'.entries) : m = m' := by
  cases m
  cases m'
  cases h
  rfl

/-- The list of a map after further entries. -/
theorem entries_foldl_insert (m : NameMap α) :
    (entries.foldl (fun m (name, value) => m.insert name value) m).entries =
      entries.foldl (fun done (name, value) => insertName name value done) m.entries := by
  induction entries generalizing m with
  | nil => rfl
  | cons e rest ih => exact ih (m.insert e.1 e.2)

/-- **A map is that of its own list.** -/
theorem ofList_entries (m : NameMap α) : ofList m.entries = m := by
  refine ext_entries ?_
  unfold ofList
  rw [entries_foldl_insert, foldl_insertName m.sorted]
  rfl

end NameMap

end SparseGraph
