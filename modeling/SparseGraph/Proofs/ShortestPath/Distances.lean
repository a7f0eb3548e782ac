import SparseGraph.Proofs.Graph.Arcs
import SparseGraph.ShortestPath.LeastWeight

namespace SparseGraph.ShortestPath

/-!
# Distances and walks

Facts about distances that involve no search.

* `through_min`, `le_through` — counting stops at `infinity`, and edges lead no closer;
* `bucketOf_mono` — greater distances do not stand in lesser buckets;
* `isDistance_iff` — a number is the distance of a vertex if no walk is lighter and, unless it is
  `infinity`, one walk is as light.
-/

/-! ### Counting up to `infinity` -/

theorem through_mono {first second : Nat} (h : first ≤ second) (weight : Nat) :
    through first weight ≤ through second weight := by
  unfold through
  omega

/-- An edge leads no closer, as long as distances are counted up to `infinity`. -/
theorem le_through {distance : Nat} (h : distance ≤ infinity) (weight : Nat) :
    distance ≤ through distance weight := by
  unfold through
  omega

/-- Cutting off before an edge is as good as cutting off after it. -/
theorem through_min (distance weight : Nat) :
    through (min infinity distance) weight = min infinity (distance + weight) := by
  unfold through
  omega

/-- Below `infinity` nothing has been cut off. -/
theorem through_eq_add {distance weight : Nat} (h : through distance weight < infinity) :
    through distance weight = distance + weight := by
  unfold through at h ⊢
  omega

/-- **Buckets are in the order of distances.** -/
theorem bucketOf_mono (shift : Nat) {first second : Nat} (h : first ≤ second) :
    bucketOf shift first ≤ bucketOf shift second := by
  unfold bucketOf
  split
  next =>
    rw [Nat.shiftRight_eq_div_pow, Nat.shiftRight_eq_div_pow]
    exact Nat.div_le_div_right h
  next => exact Nat.le_refl 0

/-- With buckets of width 1 every distance has a bucket of its own. -/
theorem bucketOf_zero (distance : Nat) : bucketOf 0 distance = distance := rfl

/-! ### Where a search begins -/

theorem size_initialDistances (n source : Nat) : (initialDistances n source).size = n := by
  unfold initialDistances
  rw [Array.size_setIfInBounds, Array.size_replicate]

theorem getD_initialDistances_source (n source : Nat) :
    (initialDistances n source).getD source 0 = 0 := by
  unfold initialDistances
  rw [Array.getD_eq_getD_getElem?, Array.getElem?_setIfInBounds_self]
  split <;> rfl

theorem getD_initialDistances_of_ne {n source v : Nat} (hv : v < n) (h : v ≠ source) :
    (initialDistances n source).getD v 0 = infinity := by
  unfold initialDistances
  rw [Array.getD_eq_getD_getElem?, Array.getElem?_setIfInBounds_ne (Ne.symm h),
    Array.getElem?_replicate, if_pos hv]
  rfl

theorem getD_initialDistances_le (n source v : Nat) :
    (initialDistances n source).getD v 0 ≤ infinity := by
  by_cases h : v = source
  · rw [h, getD_initialDistances_source]
    exact Nat.zero_le _
  · by_cases hv : v < n
    · rw [getD_initialDistances_of_ne hv h]
    · rw [Array.getD_eq_getD_getElem?, Array.getElem?_eq_none]
      · exact Nat.zero_le _
      · rw [size_initialDistances]
        exact Nat.le_of_not_lt hv

/-! ### Distances by walks -/

variable {g : Graph} {source v d : Nat}

/-- A vertex that can be reached has a least weight. -/
theorem exists_isLeastWeight (h : g.Reaches source v) :
    ∃ weight, IsLeastWeight g source v weight := by
  classical
  exact ⟨Nat.find h, Nat.find_spec h, fun other hother => Nat.find_min' h hother⟩

/-- **Distances by walks.** A number up to `infinity` is the distance of a vertex just in case no
    walk there is lighter and, below `infinity`, some walk is as light. -/
theorem isDistance_iff :
    IsDistance g source v d ↔
      d ≤ infinity ∧ (d < infinity → g.Walk source v d) ∧
        ∀ weight, g.Walk source v weight → d ≤ weight := by
  constructor
  · rintro (⟨least, ⟨hwalk, hleast⟩, rfl⟩ | ⟨hnone, rfl⟩)
    · refine ⟨Nat.min_le_left _ _, fun hlt => ?_, fun weight hw => ?_⟩
      · have hmin : min infinity least = least := by omega
        rw [hmin]
        exact hwalk
      · exact Nat.le_trans (Nat.min_le_right _ _) (hleast weight hw)
    · exact ⟨Nat.le_refl _, fun hlt => absurd hlt (Nat.lt_irrefl _),
        fun weight hw => absurd ⟨weight, hw⟩ hnone⟩
  · rintro ⟨hle, hattained, hleast⟩
    by_cases hreach : g.Reaches source v
    · obtain ⟨least, hl⟩ := exists_isLeastWeight hreach
      refine .inl ⟨least, hl, ?_⟩
      -- A walk as light as `d` is a lightest one; without one, all walks exceed `infinity`.
      have hd := hleast least hl.1
      by_cases hlt : d < infinity
      · have := hl.2 d (hattained hlt)
        omega
      · omega
    · refine .inr ⟨hreach, ?_⟩
      by_contra hne
      exact hreach ⟨d, hattained (by omega)⟩

end SparseGraph.ShortestPath
