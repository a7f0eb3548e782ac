import SparseGraph.Component.LabelPropagation
import SparseGraph.Graph.Walk
import SparseGraph.Proofs.Cell
import SparseGraph.Proofs.Graph.Arcs

namespace SparseGraph.Component

/-!
# What announcing labels does

A vertex that announces its label lowers the labels of its targets and nothing else, so a label
always comes from a vertex with a walk to where it stands, and a round in which nobody announces
anything leaves no label that could still be lowered.

* `labelOf`, `announcedOf` — what a vertex holds;
* `Announcement` — what changes when a vertex announces its label;
* `visit_quiet_or_loud` — a visit changes nothing, or is an announcement that raises the flag;
* `foldl_visit_keeps`, `foldl_visit_of_quiet` — what visits in any order keep, and when they
  change nothing;
* `Descending` — the order of what a vertex holds, whatever the graph;
* `Spreading` — the invariant of the propagation in a graph;
* `Spreading.labelOf_le` — after a quiet round no vertex with a walk to `v` is less than its label.
-/

/-! ### What a vertex holds -/

/-- The label of a vertex, 0 beyond the vertices. -/
def labelOf (marks : Array Mark) (v : Nat) : Nat :=
  (marks[v]?.map Mark.label).getD 0

/-- The label that a vertex announced last, 0 beyond the vertices. -/
def announcedOf (marks : Array Mark) (v : Nat) : Nat :=
  (marks[v]?.map Mark.announced).getD 0

section
variable {marks : Array Mark} {v : Nat} {m : Mark}

theorem labelOf_of_getElem? (h : marks[v]? = some m) : labelOf marks v = m.label := by
  rw [labelOf, h]
  rfl

theorem announcedOf_of_getElem? (h : marks[v]? = some m) : announcedOf marks v = m.announced := by
  rw [announcedOf, h]
  rfl

theorem size_lowerLabel (marks : Array Mark) (v label : Nat) :
    (lowerLabel marks v label).size = marks.size :=
  Array.size_modify

/-- The label that is to be lowered becomes the minimum. -/
theorem labelOf_lowerLabel (marks : Array Mark) (v label w : Nat) :
    labelOf (lowerLabel marks v label) w =
      if w = v then min label (labelOf marks w) else labelOf marks w := by
  unfold labelOf lowerLabel
  rw [Array.getElem?_modify]
  by_cases hw : w = v
  · rw [if_pos hw, if_pos hw.symm]
    cases marks[w]? with
    | none => exact (Nat.min_eq_right (Nat.zero_le label)).symm
    | some m => exact getD_lowered? m.label label
  · rw [if_neg hw, if_neg (Ne.symm hw)]

theorem announcedOf_lowerLabel (marks : Array Mark) (v label w : Nat) :
    announcedOf (lowerLabel marks v label) w = announcedOf marks w := by
  unfold announcedOf lowerLabel
  rw [Array.getElem?_modify]
  split
  · cases marks[w]? <;> rfl
  · rfl

end

/-! ### Announcements -/

/-- What changes when `v` announces its label: `v` has announced it, the labels of its targets are
    not greater than it any more, and only they may have become less. -/
structure Announcement (g : Graph) (v : Nat) (before after : Array Mark) : Prop where
  size_eq : after.size = before.size
  announced_eq : ∀ w, announcedOf after w =
    if w = v then labelOf before v else announcedOf before w
  le : ∀ w, labelOf after w ≤ labelOf before w
  reached : ∀ a ∈ g.arcs v, labelOf after a.target.toNat ≤ labelOf before v
  along : ∀ w, labelOf after w = labelOf before w ∨
    labelOf after w = labelOf before v ∧ ∃ a ∈ g.arcs v, a.target.toNat = w

/-- Lowering the labels of targets, one after another. -/
theorem lowerLabel_foldl (arcs : List Arc) (marks : Array Mark) (label : Nat) :
    let after := arcs.foldl (fun marks a => lowerLabel marks a.target.toNat label) marks
    after.size = marks.size ∧ (∀ w, announcedOf after w = announcedOf marks w) ∧
      (∀ w, labelOf after w ≤ labelOf marks w) ∧
      (∀ a ∈ arcs, labelOf after a.target.toNat ≤ label) ∧
      ∀ w, labelOf after w = labelOf marks w ∨
        labelOf after w = label ∧ ∃ a ∈ arcs, a.target.toNat = w := by
  induction arcs generalizing marks with
  | nil =>
    exact ⟨rfl, fun _ => rfl, fun _ => Nat.le_refl _, fun _ ha => absurd ha List.not_mem_nil,
      fun _ => .inl rfl⟩
  | cons a arcs ih =>
    obtain ⟨hsize, hannounced, hle, hreached, halong⟩ := ih (lowerLabel marks a.target.toNat label)
    have hlower : ∀ w, labelOf (lowerLabel marks a.target.toNat label) w ≤ labelOf marks w := by
      intro w
      rw [labelOf_lowerLabel]
      split
      · exact Nat.min_le_right _ _
      · exact Nat.le_refl _
    refine ⟨hsize.trans (size_lowerLabel _ _ _), fun w => ?_, fun w => ?_, fun b hb => ?_,
      fun w => ?_⟩
    · exact (hannounced w).trans (announcedOf_lowerLabel _ _ _ _)
    · exact Nat.le_trans (hle w) (hlower w)
    · rcases List.mem_cons.1 hb with rfl | hb
      · -- Later targets do not raise what the first one has become.
        refine Nat.le_trans (hle _) ?_
        rw [labelOf_lowerLabel, if_pos rfl]
        exact Nat.min_le_left _ _
      · exact hreached b hb
    · rcases halong w with heq | ⟨heq, b, hb, hbw⟩
      · rw [labelOf_lowerLabel] at heq
        by_cases hw : w = a.target.toNat
        · rw [if_pos hw] at heq
          rcases Nat.le_total label (labelOf marks w) with hl | hl
          · rw [Nat.min_eq_left hl] at heq
            exact .inr ⟨heq, a, List.mem_cons_self, hw.symm⟩
          · rw [Nat.min_eq_right hl] at heq
            exact .inl heq
        · rw [if_neg hw] at heq
          exact .inl heq
      · exact .inr ⟨heq, b, List.mem_cons_of_mem a hb, hbw⟩

/-- What a vertex that announces its label holds then. -/
theorem labelOf_set_announced {marks : Array Mark} {v : Nat} {m : Mark} (h : marks[v]? = some m)
    (w : Nat) :
    labelOf (marks.setIfInBounds v { m with announced := m.label }) w = labelOf marks w := by
  have hv := (Array.getElem?_eq_some_iff.1 h).1
  unfold labelOf
  rw [Array.getElem?_setIfInBounds]
  by_cases hw : v = w
  · rw [if_pos hw, if_pos hv, ← hw, h]
    rfl
  · rw [if_neg hw]

theorem announcedOf_set_announced {marks : Array Mark} {v : Nat} {m : Mark}
    (h : marks[v]? = some m) (w : Nat) :
    announcedOf (marks.setIfInBounds v { m with announced := m.label }) w =
      if w = v then labelOf marks v else announcedOf marks w := by
  have hv := (Array.getElem?_eq_some_iff.1 h).1
  rw [labelOf_of_getElem? h]
  unfold announcedOf
  rw [Array.getElem?_setIfInBounds]
  by_cases hw : v = w
  · rw [if_pos hw, if_pos hv, if_pos hw.symm]
    rfl
  · rw [if_neg hw, if_neg (Ne.symm hw)]

/-- **What a visit does.** If the label has not dropped since it was announced, nothing; otherwise
    the vertex announces it, and the flag goes up. -/
theorem visit_quiet_or_loud (g : Graph) (s : Array Mark × Flag) (v : Nat) :
    (announcedOf s.1 v ≤ labelOf s.1 v ∧ visit g s v = s) ∨
      (labelOf s.1 v < announcedOf s.1 v ∧ Announcement g v s.1 (visit g s v).1 ∧
        (visit g s v).2.raised = true) := by
  unfold visit
  split
  next hnone =>
    refine .inl ⟨?_, rfl⟩
    rw [announcedOf, labelOf, hnone]
    exact Nat.le_refl 0
  next m hm =>
    have hlabel := labelOf_of_getElem? hm
    have hannounced := announcedOf_of_getElem? hm
    split
    next hquiet => exact .inl ⟨by rw [hlabel, hannounced]; exact hquiet, rfl⟩
    next hloud =>
      refine .inr ⟨by rw [hlabel, hannounced]; exact Nat.lt_of_not_le hloud, ?_, rfl⟩
      obtain ⟨hsize, hkept, hle, hreached, halong⟩ :=
        lowerLabel_foldl (g.arcs v) (s.1.setIfInBounds v { m with announced := m.label }) m.label
      refine ⟨hsize.trans Array.size_setIfInBounds, fun w => ?_, fun w => ?_, fun a ha => ?_,
        fun w => ?_⟩
      · rw [← announcedOf_set_announced hm w]
        exact hkept w
      · rw [← labelOf_set_announced hm w]
        exact hle w
      · rw [hlabel]
        exact hreached a ha
      · rw [← labelOf_set_announced hm w, hlabel]
        exact halong w

section
variable {g : Graph} {P : Array Mark → Prop}

/-- What every announcement keeps, a visit keeps. -/
theorem visit_keeps
    (keep : ∀ {v before after}, P before → Announcement g v before after → P after)
    {s : Array Mark × Flag} (h : P s.1) (v : Nat) : P (visit g s v).1 := by
  rcases visit_quiet_or_loud g s v with ⟨_, heq⟩ | ⟨_, ann, _⟩
  · rw [heq]
    exact h
  · exact keep h ann

/-- What every announcement keeps, visits in any order keep. -/
theorem foldl_visit_keeps
    (keep : ∀ {v before after}, P before → Announcement g v before after → P after)
    {s : Array Mark × Flag} (h : P s.1) (order : List Nat) : P (order.foldl (visit g) s).1 := by
  induction order generalizing s with
  | nil => exact h
  | cons v order ih => exact ih (visit_keeps keep h v)

/-- **Visits without news.** If no vertex in the order has anything to announce, the visits change
    nothing and raise no flag. -/
theorem foldl_visit_of_quiet {s : Array Mark × Flag} {order : List Nat}
    (quiet : ∀ v ∈ order, announcedOf s.1 v ≤ labelOf s.1 v) : order.foldl (visit g) s = s := by
  induction order with
  | nil => rfl
  | cons v order ih =>
    have hv := quiet v List.mem_cons_self
    rcases visit_quiet_or_loud g s v with ⟨_, heq⟩ | ⟨hloud, _⟩
    · rw [List.foldl_cons, heq]
      exact ih fun w hw => quiet w (List.mem_cons_of_mem v hw)
    · exact absurd hloud (Nat.not_lt.2 hv)

end

/-! ### The order of what a vertex holds -/

/-- Labels only drop, from the number of the vertex on, and a vertex has announced no label less
    than its own. -/
structure Descending (marks : Array Mark) : Prop where
  le_announced : ∀ v, labelOf marks v ≤ announcedOf marks v
  le_self : ∀ v, labelOf marks v ≤ v

namespace Descending

variable {g : Graph} {v : Nat} {before after : Array Mark}

/-- **Announcing keeps the order.** -/
theorem announcement (h : Descending before) (ann : Announcement g v before after) :
    Descending after where
  le_announced w := by
    rw [ann.announced_eq]
    split
    next hw =>
      rw [hw]
      exact ann.le v
    next => exact Nat.le_trans (ann.le w) (h.le_announced w)
  le_self w := Nat.le_trans (ann.le w) (h.le_self w)

end Descending

/-! ### The invariant of the propagation -/

/-- The invariant of the propagation of labels in a graph: a label has a walk to where it stands,
    and along each arc it is not greater than what the source of the arc has announced. -/
structure Spreading (g : Graph) (marks : Array Mark) : Prop extends Descending marks where
  size_eq : marks.size = g.numNodes
  reaches : ∀ v < g.numNodes, g.Reaches (labelOf marks v) v
  le_of_arc : ∀ v, ∀ a ∈ g.arcs v, labelOf marks a.target.toNat ≤ announcedOf marks v

namespace Spreading

variable {g : Graph} {u v : Nat} {marks before after : Array Mark}

/-- **Announcing keeps the invariant.** -/
theorem announcement (h : Spreading g before) (ann : Announcement g v before after) :
    Spreading g after where
  toDescending := h.toDescending.announcement ann
  size_eq := ann.size_eq.trans h.size_eq
  reaches w hw := by
    rcases ann.along w with heq | ⟨heq, a, ha, rfl⟩
    · rw [heq]
      exact h.reaches w hw
    · -- The label has come along an arc from `v`.
      rw [heq]
      exact (h.reaches v (Graph.lt_of_mem_arcs ha)).step ha
  le_of_arc w a ha := by
    rw [ann.announced_eq]
    split
    next hw =>
      rw [hw] at ha
      exact ann.reached a ha
    next => exact Nat.le_trans (ann.le _) (h.le_of_arc w a ha)

/-- **A round keeps the invariant,** in whatever order the vertices are visited. -/
theorem foldl_visit {s : Array Mark × Flag} (h : Spreading g s.1) (order : List Nat) :
    Spreading g (order.foldl (visit g) s).1 :=
  foldl_visit_keeps announcement h order

/-- **Labels are least** once nobody has anything to announce: what reaches `v` is not less than
    its label. -/
theorem labelOf_le (h : Spreading g marks)
    (quiet : ∀ v < g.numNodes, announcedOf marks v ≤ labelOf marks v) (walk : g.Reaches u v) :
    labelOf marks v ≤ u := by
  obtain ⟨weight, walk⟩ := walk
  induction walk with
  | stay => exact h.le_self u
  | @step v weight a _ ha ih =>
    calc labelOf marks a.target.toNat
        ≤ announcedOf marks v := h.le_of_arc v a ha
      _ ≤ labelOf marks v := quiet v (Graph.lt_of_mem_arcs ha)
      _ ≤ u := ih

end Spreading

end SparseGraph.Component
