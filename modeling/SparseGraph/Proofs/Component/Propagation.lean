import SparseGraph.Component.Schedule
import SparseGraph.Proofs.Component.Announcements

namespace SparseGraph.Component

/-!
# Propagation finds the least vertex that reaches a vertex

Rounds keep the invariant of the propagation, and the run ends with a round in which nobody had
anything to announce. Neither depends on the order of the visits.

* `quiet_of_foldl_visit` — a round in which the flag stays down changes nothing;
* `Settles.keeps`, `Settles.all_quiet` — what holds after a run whose rounds are in any order;
* `spreading_new` — in the beginning every vertex has its own number;
* `spreading_settle`, `quiet_settle` — what holds after a run;
* `getElem?_labels_propagate` — the label of a vertex is the least one that reaches it.
-/

variable {g : Graph} {marks : Array Mark}

/-! ### Quiet rounds -/

/-- **A quiet round** changes nothing, and no vertex had anything to announce. -/
theorem quiet_of_foldl_visit {s : Array Mark × Flag} {order : List Nat}
    (h : (order.foldl (visit g) s).2.raised = false) :
    order.foldl (visit g) s = s ∧ ∀ v ∈ order, announcedOf s.1 v ≤ labelOf s.1 v := by
  induction order generalizing s with
  | nil => exact ⟨rfl, fun v hv => absurd hv List.not_mem_nil⟩
  | cons v order ih =>
    rw [List.foldl_cons] at h ⊢
    obtain ⟨heq, hquiet⟩ := ih h
    rcases visit_quiet_or_loud g s v with ⟨hv, hsame⟩ | ⟨_, _, hraised⟩
    · rw [hsame] at heq hquiet ⊢
      refine ⟨heq, fun w hw => ?_⟩
      rcases List.mem_cons.1 hw with rfl | hw
      · exact hv
      · exact hquiet w hw
    · -- The flag would have stayed up for the rest of the round.
      rw [heq, hraised] at h
      cases h

/-! ### Rounds in any order -/

section
variable {before after : Array Mark} {P : Array Mark → Prop}

/-- What every announcement keeps, a round keeps. -/
theorem Round.keeps {announced : Bool}
    (keep : ∀ {v before after}, P before → Announcement g v before after → P after)
    (h : Round g before after announced) (hbefore : P before) : P after := by
  obtain ⟨order, _, hsweep⟩ := h
  have hafter := foldl_visit_keeps keep (s := (before, {})) hbefore order
  rwa [show order.foldl (visit g) (before, {}) = (after, ⟨announced⟩) from hsweep] at hafter

/-- After a round in which nothing is announced all vertices are quiet. -/
theorem Round.all_quiet (h : Round g before after false) :
    ∀ v < g.numNodes, announcedOf after v ≤ labelOf after v := by
  obtain ⟨order, hperm, hsweep⟩ := h
  have hdown : (order.foldl (visit g) (before, {})).2.raised = false := congrArg (·.2.raised) hsweep
  obtain ⟨heq, hquiet⟩ := quiet_of_foldl_visit hdown
  have hsame : after = before := (congrArg Prod.fst hsweep).symm.trans (congrArg Prod.fst heq)
  intro v hv
  rw [hsame]
  exact hquiet v (hperm.mem_iff.2 (List.mem_range.2 hv))

/-- What every announcement keeps, a run keeps, in whatever orders its rounds are. -/
theorem Settles.keeps {rounds : Nat}
    (keep : ∀ {v before after}, P before → Announcement g v before after → P after)
    (h : Settles g before rounds after) (hbefore : P before) : P after := by
  induction h with
  | quiet h => exact h.keeps keep hbefore
  | loud h _ ih => exact ih (h.keeps keep hbefore)

/-- **A run ends when all vertices are quiet.** -/
theorem Settles.all_quiet {rounds : Nat} (h : Settles g before rounds after) :
    ∀ v < g.numNodes, announcedOf after v ≤ labelOf after v := by
  induction h with
  | quiet h => exact h.all_quiet
  | loud _ _ ih => exact ih

end

/-! ### Runs in the order of the vertices -/

/-- What every announcement keeps, a run keeps. -/
theorem settle_keeps {P : Array Mark → Prop}
    (keep : ∀ {v before after}, P before → Announcement g v before after → P after)
    (h : P marks) : P (settle g marks).2 :=
  (settles_settle g marks).keeps keep h

/-- **A run keeps the invariant.** -/
theorem spreading_settle (h : Spreading g marks) : Spreading g (settle g marks).2 :=
  settle_keeps Spreading.announcement h

/-- After a run all vertices are quiet. -/
theorem quiet_settle (g : Graph) (marks : Array Mark) :
    ∀ v < g.numNodes, announcedOf (settle g marks).2 v ≤ labelOf (settle g marks).2 v :=
  (settles_settle g marks).all_quiet

/-! ### Labels of a graph -/

theorem labelOf_new {n v : Nat} (hv : v < n) : labelOf (Labelling.new n).marks v = v := by
  unfold labelOf Labelling.new
  rw [Array.getElem?_map, Array.getElem?_range, if_pos hv]
  rfl

theorem announcedOf_new {n v : Nat} (hv : v < n) :
    announcedOf (Labelling.new n).marks v = unannounced := by
  unfold announcedOf Labelling.new
  rw [Array.getElem?_map, Array.getElem?_range, if_pos hv]
  rfl

theorem size_new (n : Nat) : (Labelling.new n).marks.size = n := by
  unfold Labelling.new
  rw [Array.size_map, Array.size_range]

/-- Beyond the vertices nothing is held. -/
theorem labelOf_of_le {v : Nat} (h : marks.size ≤ v) : labelOf marks v = 0 := by
  rw [labelOf, Array.getElem?_eq_none h]
  rfl

/-- In the beginning labels are the numbers of the vertices, which are below `unannounced`. -/
theorem descending_new {n : Nat} (hn : n ≤ Text.maxWord) : Descending (Labelling.new n).marks where
  le_announced v := by
    by_cases hv : v < n
    · rw [labelOf_new hv, announcedOf_new hv]
      unfold unannounced
      omega
    · rw [labelOf_of_le (by rw [size_new]; exact Nat.le_of_not_lt hv)]
      exact Nat.zero_le _
  le_self v := by
    by_cases hv : v < n
    · exact Nat.le_of_eq (labelOf_new hv)
    · rw [labelOf_of_le (by rw [size_new]; exact Nat.le_of_not_lt hv)]
      exact Nat.zero_le _

/-- **The invariant holds in the beginning.** -/
theorem spreading_new (hn : g.numNodes ≤ Text.maxWord) :
    Spreading g (Labelling.new g.numNodes).marks where
  toDescending := descending_new hn
  size_eq := size_new g.numNodes
  reaches v hv := by
    rw [labelOf_new hv]
  le_of_arc v a ha := by
    rw [announcedOf_new (Graph.lt_of_mem_arcs ha), labelOf_new (Graph.target_lt_of_mem_arcs ha)]
    exact Nat.le_trans (Nat.le_of_lt (Graph.target_lt_of_mem_arcs ha)) hn

/-- The labels that a run leads to, seen from the marks. -/
theorem getElem?_labels {v : Nat} (hv : v < marks.size) :
    (marks.map Mark.label)[v]? = some (labelOf marks v) := by
  rw [labelOf, Array.getElem?_map, Array.getElem?_eq_getElem hv]
  rfl

theorem labels_propagate (g : Graph) :
    (propagate g).labels =
      (settle g (Labelling.new g.numNodes).marks).2.map Mark.label :=
  rfl

/-- **Labels are least.** The label of a vertex reaches it, and no vertex that reaches it is
    less. -/
theorem getElem?_labels_propagate (hn : g.numNodes ≤ Text.maxWord) {v : Nat}
    (hv : v < g.numNodes) :
    ∃ u, (propagate g).labels[v]? = some u ∧ g.Reaches u v ∧ ∀ w, g.Reaches w v → u ≤ w := by
  have inv := spreading_settle (spreading_new hn)
  refine ⟨_, ?_, inv.reaches v hv, fun w hw => ?_⟩
  · rw [labels_propagate]
    exact getElem?_labels (by rw [inv.size_eq]; exact hv)
  · exact inv.labelOf_le (quiet_settle g _) hw

theorem size_labels_propagate (hn : g.numNodes ≤ Text.maxWord) :
    (propagate g).labels.size = g.numNodes := by
  rw [labels_propagate, Array.size_map]
  exact (spreading_settle (spreading_new hn)).size_eq

end SparseGraph.Component
