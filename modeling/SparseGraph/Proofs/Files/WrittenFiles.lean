import SparseGraph.Files.Store
import SparseGraph.Proofs.Fallible

namespace SparseGraph.Files

/-!
# Written files

What is written at a path is read there again: a path leads through directories only, and writing a
file leaves every directory where it is.

* `Store.lookup_eq_directory_iff` — which names lead to a directory;
* `Store.lookup_put`, `Store.lookup_put_of_directory` — what names lead to once a file is put;
* `Store.follow_target`, `Store.follow_put` — the way to a file that is written;
* `Store.read_of_write` — contents that are written are read.
-/

namespace Store

variable {s s' : Store} {names dir : List String} {content : Content} {place : Place}
  {parts : List String} {path : String}

/-! ### What names lead to -/

/-- **Which names lead to a directory:** no file has them, and they are those of a known directory or
    of one that a file is in. -/
theorem lookup_eq_directory_iff :
    s.lookup names = .directory names ↔
      names ≠ nullFile ∧ (∀ f ∈ s.files, f.1 ≠ names) ∧
        ((names.all fun name => name == "" || name == "..") = true ∨ names ∈ s.directories ∨
          names <+: nullFile ∨ ∃ f ∈ s.files, names <+: f.1) := by
  have hfind : s.files.find? (·.1 == names) = none ↔ ∀ f ∈ s.files, f.1 ≠ names := by
    simp only [List.find?_eq_none, beq_iff_eq, ne_eq]
  have hknown : ((names.all fun name => name == "" || name == "..") ||
      s.directories.contains names || (nullFile :: s.files.map (·.1)).any names.isPrefixOf) = true ↔
      (names.all fun name => name == "" || name == "..") = true ∨ names ∈ s.directories ∨
        names <+: nullFile ∨ ∃ f ∈ s.files, names <+: f.1 := by
    simp only [Bool.or_eq_true, List.contains_iff_mem, List.any_cons, List.any_map, List.any_eq_true,
      Function.comp_apply, List.isPrefixOf_iff_prefix, or_assoc]
  unfold lookup
  rw [← hknown, ← hfind]
  by_cases hnull : names = nullFile
  · simp [hnull]
  · rw [if_neg hnull]
    cases s.files.find? (·.1 == names) with
    | some f => simp
    | none =>
      dsimp only
      constructor
      · intro h
        split at h
        next hdir => exact ⟨hnull, rfl, hdir⟩
        next => cases h
      · rintro ⟨_, _, hdir⟩
        rw [if_pos hdir]

/-- Names lead to what has these names. -/
theorem lookup_cases (s : Store) (names : List String) :
    s.lookup names = .directory names ∨ (s.lookup names).target = .ok names := by
  unfold lookup
  split
  · exact .inr rfl
  · split
    · exact .inr rfl
    · split
      · exact .inl rfl
      · exact .inr rfl

/-- **A file that is put is found** with its contents. -/
theorem lookup_put (hnull : names ≠ nullFile) :
    (s.put names content).lookup names = .file names content := by
  unfold lookup put
  rw [if_neg hnull, if_neg hnull]
  simp

/-- **Directories stay** where a file is put under other names. -/
theorem lookup_put_of_directory (hdir : s.lookup dir = .directory dir) (hne : dir ≠ names) :
    (s.put names content).lookup dir = .directory dir := by
  by_cases hnull : names = nullFile
  · unfold put
    rwa [if_pos hnull]
  · obtain ⟨hdirnull, hnofile, hknown⟩ := lookup_eq_directory_iff.1 hdir
    have hfiles : (s.put names content).files = (names, content) :: s.files.filter (·.1 != names) := by
      unfold put
      rw [if_neg hnull]
    have hdirectories : (s.put names content).directories = s.directories := by
      unfold put
      rw [if_neg hnull]
    refine lookup_eq_directory_iff.2 ⟨hdirnull, ?_, ?_⟩
    · intro f hf
      rw [hfiles] at hf
      rcases List.mem_cons.1 hf with rfl | hf
      · exact hne.symm
      · exact hnofile f (List.mem_filter.1 hf).1
    · rw [hdirectories]
      refine hknown.imp_right (Or.imp_right (Or.imp_right ?_))
      -- A file in the directory is still there, or it is the one that is put.
      rintro ⟨f, hf, hprefix⟩
      rw [hfiles]
      by_cases heq : f.1 = names
      · exact ⟨(names, content), List.mem_cons_self, heq ▸ hprefix⟩
      · exact ⟨f, List.mem_cons_of_mem _ (List.mem_filter.2 ⟨hf, by simpa using heq⟩), hprefix⟩

/-! ### The way to a file -/

/-- What is no directory ends a path. -/
theorem follow_of_target {last : Place} (hlast : last.target = .ok names)
    (h : s.follow last parts = .ok place) : parts = [] ∧ place = last := by
  cases parts with
  | nil =>
    rw [follow] at h
    cases h
    exact ⟨rfl, rfl⟩
  | cons part parts =>
    cases last with
    | directory found => cases hlast
    | file found content => rw [follow] at h; cases h
    | free found => rw [follow] at h; cases h

/-- The way to a file leads to the names that its path means, and no directory has them. -/
theorem follow_target (h : s.follow (.directory dir) parts = .ok place)
    (htarget : place.target = .ok names) :
    names = parts.foldl enter dir ∧ s.lookup names ≠ .directory names := by
  induction parts generalizing dir with
  | nil =>
    rw [follow] at h
    cases h
    cases htarget
  | cons part parts ih =>
    rw [follow] at h
    split at h
    · cases h
    · rcases s.lookup_cases (enter dir part) with hlookup | hlookup
      · rw [hlookup] at h
        exact ih h
      · obtain ⟨rfl, rfl⟩ := follow_of_target hlookup h
        rw [htarget] at hlookup
        cases hlookup
        refine ⟨rfl, fun hdirectory => ?_⟩
        rw [hdirectory] at htarget
        cases htarget

/-- **The way to a file that is put** is the way to where it was to be written. -/
theorem follow_put (h : s.follow (.directory dir) parts = .ok place)
    (htarget : place.target = .ok names) (hnull : names ≠ nullFile) :
    (s.put names content).follow (.directory dir) parts = .ok (.file names content) := by
  -- All but the last part lead to directories, which are still there.
  induction parts generalizing dir with
  | nil =>
    rw [follow] at h
    cases h
    cases htarget
  | cons part parts ih =>
    obtain ⟨hnames, hfree⟩ := follow_target h htarget
    rw [follow] at h ⊢
    split at h
    · cases h
    next hlength =>
      rw [if_neg hlength]
      rcases s.lookup_cases (enter dir part) with hlookup | hlookup
      · -- A directory on the way is none that the file could be put in the place of.
        have hne : enter dir part ≠ names := by
          rintro rfl
          exact hfree hlookup
        rw [hlookup] at h
        rw [lookup_put_of_directory hlookup hne]
        exact ih h
      · obtain ⟨rfl, rfl⟩ := follow_of_target hlookup h
        have heq : names = enter dir part := hnames
        rw [← heq, lookup_put hnull, follow]

/-- What is written goes where the path leads. -/
theorem exists_follow_of_target (h : s.target path = .ok names) :
    pathFault? path = none ∧ ∃ place,
      s.follow (.directory (splitStart path).1) (splitStart path).2 = .ok place ∧
        place.target = .ok names := by
  unfold target at h
  split at h
  · cases h
  next hfault =>
    refine ⟨hfault, ?_⟩
    dsimp only at h
    split at h
    next =>
      -- The path of a directory is refused, whatever is there.
      obtain ⟨place, _, hplace⟩ := bind_eq_ok_iff.1 h
      cases hplace
    next => exact bind_eq_ok_iff.1 h

/-- **Contents that are written are read,** unless they are written to the file that is always
    empty. -/
theorem read_of_write (h : s.write path content = .ok s') (hnull : Files.place path ≠ nullFile) :
    s'.read path = .ok content := by
  unfold write at h
  cases htarget : s.target path with
  | error fault => rw [htarget] at h; cases h
  | ok names =>
    rw [htarget] at h
    cases h
    obtain ⟨hfault, place, hfollow, hplace⟩ := exists_follow_of_target htarget
    have hnames : names = Files.place path := (follow_target hfollow hplace).1
    have hput : (s.put names content).follow (.directory (splitStart path).1) (splitStart path).2 =
        .ok (.file names content) := follow_put hfollow hplace (hnames ▸ hnull)
    unfold read locate
    rw [hfault]
    dsimp only
    rw [hput]

end Store

end SparseGraph.Files
