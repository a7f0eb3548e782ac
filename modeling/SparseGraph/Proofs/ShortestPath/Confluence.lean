import SparseGraph.Proofs.ShortestPath.DeltaStepping
import SparseGraph.ShortestPath.Schedule

namespace SparseGraph.ShortestPath

/-!
# All schedules of relaxation agree

Waiting items may be taken in any order, and arcs be relaxed in any order. Each step keeps the
invariant of a search and spends a waiting item or a unit of distance, so every schedule ends, and
all of them end with the distances of delta stepping.

* `Step.exists_visit` — a step is a visit of one waiting item;
* `Step.measure_lt`, `Steps.measure_le` — steps are paid for;
* `Step.relaxing`, `Steps.relaxing` — steps keep the invariant;
* `steps_confluent` — the number of steps is bounded, and where no step is left the distances are
  those of delta stepping.
-/

variable {g : Graph} {source count : Nat} {s t : Situation}

/-! ### Steps are visits -/

/-- **A step is a visit** of one of the waiting items, and what it files waits behind the others. -/
theorem Step.exists_visit (h : Step g s t) :
    ∃ before item after filed, s.pending = before ++ item :: after ∧
      t.pending = before ++ after ++ filed ∧ Visit g item s.distances t.distances filed := by
  cases h with
  | @drop distances before after item stale =>
    exact ⟨before, item, after, [], rfl, (List.append_nil _).symm, .stale stale⟩
  | @relax distances before after item fresh arcs order =>
    obtain ⟨filed, hrel, hprod⟩ :=
      Sweep.exists_relaxation ⟨distances, #[], 0⟩ (distances.getD item.vertex 0) arcs
    refine ⟨before, item, after, filed, rfl, ?_, .fresh fresh order hrel⟩
    show before ++ after ++ _ = _
    rw [hprod]
    rfl

/-- **A step keeps the invariant.** -/
theorem Step.relaxing (h : Step g s t) (inv : Relaxing g source s.distances (· ∈ s.pending)) :
    Relaxing g source t.distances (· ∈ t.pending) := by
  obtain ⟨before, item, after, filed, hs, ht, hvisit⟩ := h.exists_visit
  have hbefore : Relaxing g source s.distances fun i => i = item ∨ i ∈ before ++ after := by
    refine inv.congr fun i => ?_
    rw [hs, List.perm_middle.mem_iff, List.mem_cons]
  refine (hvisit.relaxing hbefore).congr fun i => ?_
  simp only [ht, List.mem_append]

/-- Whatever waits can be taken. -/
theorem exists_step (h : t.pending ≠ []) : ∃ u, Step g t u := by
  obtain ⟨distances, pending⟩ := t
  cases pending with
  | nil => exact absurd rfl h
  | cons item rest =>
    by_cases hstale : distances.getD item.vertex 0 < item.distance
    · have hstep : Step g ⟨distances, [] ++ item :: rest⟩ ⟨distances, [] ++ rest⟩ := .drop hstale
      exact ⟨_, hstep⟩
    · have hstep : Step g ⟨distances, [] ++ item :: rest⟩
          (.relaxed distances ([] ++ rest) item (g.arcs item.vertex)) :=
        .relax (Nat.le_of_not_lt hstale) (.refl _)
      exact ⟨_, hstep⟩

/-- Where nothing waits there is no step. -/
theorem not_step_of_pending_eq_nil (h : t.pending = []) (u : Situation) : ¬ Step g t u := by
  intro hstep
  obtain ⟨before, item, after, _, ht, _⟩ := hstep.exists_visit
  rw [h] at ht
  simp at ht

/-! ### Steps are paid for -/

/-- What can still be spent: the sum of the distances, and the waiting items. -/
def Situation.measure (s : Situation) : Nat :=
  total s.distances.toList + s.pending.length

/-- **A step is paid for:** its item is gone, and each item it files has cost a unit of distance. -/
theorem Step.measure_lt (h : Step g s t) : t.measure < s.measure := by
  cases h with
  | @drop distances before after item stale =>
    simp only [Situation.measure, List.length_append, List.length_cons]
    omega
  | @relax distances before after item fresh arcs order =>
    have hpot := Sweep.potential_relaxArcs ⟨distances, #[], 0⟩ (distances.getD item.vertex 0) arcs
    simp only [Sweep.potential, List.size_toArray, List.length_nil] at hpot
    simp only [Situation.measure, Situation.relaxed, List.length_append, List.length_cons,
      Array.length_toList]
    omega

/-- As many steps have been taken as have been paid for. -/
theorem Steps.measure_le (h : Steps g count s t) : t.measure + count ≤ s.measure := by
  induction h with
  | none => exact Nat.le_refl _
  | more _ step ih =>
    have hlt := step.measure_lt
    omega

/-- **A run keeps the invariant.** -/
theorem Steps.relaxing (h : Steps g count s t)
    (inv : Relaxing g source s.distances (· ∈ s.pending)) :
    Relaxing g source t.distances (· ∈ t.pending) := by
  induction h with
  | none => exact inv
  | more _ step ih => exact step.relaxing (ih inv)

/-- In the beginning every vertex but the source may still drop from `infinity`. -/
theorem measure_initial (h : source < g.numNodes) :
    (Situation.initial g source).measure = (g.numNodes - 1) * infinity + 1 := by
  have hset := total_set_add_getElem (List.replicate g.numNodes infinity) source 0
    (by rw [List.length_replicate]; exact h)
  rw [List.getElem_replicate, total_replicate] at hset
  have hn : g.numNodes * infinity = (g.numNodes - 1) * infinity + infinity := by
    rw [← Nat.succ_mul, Nat.succ_eq_add_one, Nat.sub_add_cancel (Nat.one_le_of_lt h)]
  show total (initialDistances g.numNodes source).toList + 1 = _
  unfold initialDistances
  rw [Array.toList_setIfInBounds, Array.toList_replicate]
  omega

/-! ### Every schedule ends, and all end alike -/

/-- In the beginning the source waits, and the invariant holds. -/
theorem relaxing_situation_initial (g : Graph) (source : Nat) :
    Relaxing g source (Situation.initial g source).distances
      (· ∈ (Situation.initial g source).pending) :=
  (Relaxing.initial g source).congr fun _ => List.mem_singleton.symm

/-- Every run can be continued until nothing waits. -/
theorem Steps.exists_end (h : Steps g count s t) :
    ∃ more u, Steps g (count + more) s u ∧ u.pending = [] := by
  induction hm : t.measure using Nat.strongRecOn generalizing count t with
  | _ m ih =>
    by_cases hpending : t.pending = []
    · exact ⟨0, t, h, hpending⟩
    · obtain ⟨u, hstep⟩ := exists_step (g := g) hpending
      obtain ⟨more, w, hw, hend⟩ := ih u.measure (hm ▸ hstep.measure_lt) (h.more hstep) rfl
      exact ⟨1 + more, w, Nat.add_assoc count 1 more ▸ hw, hend⟩

/-- **All schedules agree.** From the start of a search, whichever waiting item is taken and in
    whatever order its arcs are relaxed, no more than `(numNodes - 1) * infinity + 1` items are ever
    taken, steps are left as long as anything waits, every run can be ended, and where nothing waits
    the distances are those of delta stepping, for every width of the buckets. -/
theorem steps_confluent (g : Graph) (source : Nat) (hsource : source < g.numNodes) {count : Nat}
    {t : Situation} (h : Steps g count (.initial g source) t) :
    count ≤ (g.numNodes - 1) * infinity + 1 ∧
      ((∀ u, ¬ Step g t u) ↔ t.pending = []) ∧
      (∃ more u, Steps g (count + more) (.initial g source) u ∧ u.pending = []) ∧
      (t.pending = [] →
        ∀ shift, ∃ tally, deltaStep g source shift = .ok ⟨t.distances, tally⟩) := by
  refine ⟨?_, ⟨fun hfinal => ?_, not_step_of_pending_eq_nil⟩, h.exists_end, fun hend shift => ?_⟩
  · have hle := h.measure_le
    rw [measure_initial hsource] at hle
    omega
  · by_contra hpending
    obtain ⟨u, hstep⟩ := exists_step (g := g) hpending
    exact hfinal u hstep
  · have inv := h.relaxing (relaxing_situation_initial g source)
    have hidle : Relaxing g source t.distances fun _ => False :=
      inv.congr fun i => by rw [hend]; exact iff_false_intro List.not_mem_nil
    obtain ⟨r, hr, hrelaxing⟩ := exists_deltaStep hsource shift
    refine ⟨r.tally, ?_⟩
    rw [hr, hidle.distances_eq hrelaxing]

/-! ### A schedule of the detour -/

/-- A schedule that relaxes arcs from the last to the first and takes the items filed last before
    those filed first, of which one has become stale. -/
theorem steps_detour :
    Steps detour 4 (.initial detour 0) ⟨#[0, 2, 1, infinity, infinity], []⟩ := by
  have h₁ : Step detour (.initial detour 0)
      (.relaxed (initialDistances 5 0) [] ⟨0, 0⟩ (detour.arcs 0).reverse) :=
    @Step.relax detour _ [] [] ⟨0, 0⟩ (Nat.zero_le _) _ (List.reverse_perm _)
  have eval₁ : Situation.relaxed (initialDistances 5 0) [] ⟨0, 0⟩ (detour.arcs 0).reverse =
      ⟨#[0, 4, 1, infinity, infinity], [⟨2, 1⟩, ⟨1, 4⟩]⟩ := by cbv
  have h₂ : Step detour ⟨#[0, 4, 1, infinity, infinity], [⟨2, 1⟩, ⟨1, 4⟩]⟩
      (.relaxed #[0, 4, 1, infinity, infinity] [⟨1, 4⟩] ⟨2, 1⟩ (detour.arcs 2).reverse) :=
    @Step.relax detour _ [] [⟨1, 4⟩] ⟨2, 1⟩ (Nat.le_refl _) _ (List.reverse_perm _)
  have eval₂ : Situation.relaxed #[0, 4, 1, infinity, infinity] [⟨1, 4⟩] ⟨2, 1⟩
      (detour.arcs 2).reverse = ⟨#[0, 2, 1, infinity, infinity], [⟨1, 4⟩, ⟨1, 2⟩]⟩ := by cbv
  have h₃ : Step detour ⟨#[0, 2, 1, infinity, infinity], [⟨1, 4⟩, ⟨1, 2⟩]⟩
      (.relaxed #[0, 2, 1, infinity, infinity] [⟨1, 4⟩] ⟨1, 2⟩ (detour.arcs 1)) :=
    @Step.relax detour _ [⟨1, 4⟩] [] ⟨1, 2⟩ (Nat.le_refl _) _ (.refl _)
  have eval₃ : Situation.relaxed #[0, 2, 1, infinity, infinity] [⟨1, 4⟩] ⟨1, 2⟩
      (detour.arcs 1) = ⟨#[0, 2, 1, infinity, infinity], [⟨1, 4⟩]⟩ := by cbv
  have h₄ : Step detour ⟨#[0, 2, 1, infinity, infinity], [⟨1, 4⟩]⟩
      ⟨#[0, 2, 1, infinity, infinity], []⟩ :=
    @Step.drop detour #[0, 2, 1, infinity, infinity] [] [] ⟨1, 4⟩ (by decide)
  rw [eval₁] at h₁
  rw [eval₂] at h₂
  rw [eval₃] at h₃
  exact (((Steps.none.more h₁).more h₂).more h₃).more h₄

/-- The general theorem at the detour: this schedule has taken four items and ends with the
    distances of delta stepping. -/
theorem steps_confluent_detour :
    0 < detour.numNodes ∧
      Steps detour 4 (.initial detour 0) ⟨#[0, 2, 1, infinity, infinity], []⟩ ∧
      4 ≤ (detour.numNodes - 1) * infinity + 1 ∧
      ∃ tally, deltaStep detour 0 1 = .ok ⟨#[0, 2, 1, infinity, infinity], tally⟩ := by
  have hsource : 0 < detour.numNodes := by decide
  obtain ⟨hcount, _, _, hagree⟩ := steps_confluent detour 0 hsource steps_detour
  exact ⟨hsource, steps_detour, hcount, hagree rfl 1⟩

end SparseGraph.ShortestPath
