import SparseGraph.Component.Schedule
import SparseGraph.Proofs.Component.Agreement

namespace SparseGraph.Component

/-!
# Labels over any history

Labels are kept for runs on several graphs of one size, and may be reset in between. A run on the
labels of the beginning finds the labels of its graph. After that every vertex has announced its
label, so no later run finds anything to do, even on a graph whose labels would be others.

* `settle_of_quiet` — a run without news is one round and changes nothing;
* `Phase` — what labels can be after the last reset: fresh, or settled by a run;
* `Phase.handle`, `phase_labellingAfter` — each event keeps this, so every history does;
* `run_labellingAfter` — what a run does after any history.
-/

variable {g : Graph} {n : Nat} {marks : Array Mark} {l after : Labelling} {rounds : Nat}

/-! ### Runs without news -/

/-- **A run without news** is one round and changes nothing. -/
theorem settle_of_quiet (quiet : ∀ v < g.numNodes, announcedOf marks v ≤ labelOf marks v) :
    settle g marks = (1, marks) := by
  have hsweep : sweep g marks = (marks, {}) :=
    foldl_visit_of_quiet fun v hv => quiet v (List.mem_range.1 hv)
  rw [settle, hsweep]
  rfl

/-! ### One run -/

/-- Labels for just the vertices of a graph can be used for a run on it. -/
theorem Labelling.run?_eq (h : l.marks.size = g.numNodes) :
    l.run? g = some ((settle g l.marks).1, ⟨(settle g l.marks).2⟩) := by
  rw [Labelling.run?, if_pos h]

/-- A run in a history takes place if there is a label for each vertex, and else changes nothing. -/
theorem Labelling.handle_run (l : Labelling) (g : Graph) :
    l.handle (.run g) =
      if l.marks.size = g.numNodes then ⟨(settle g l.marks).2⟩ else l := by
  by_cases h : l.marks.size = g.numNodes
  · simp only [handle, run?, if_pos h]
  · simp only [handle, run?, if_neg h]

/-! ### Phases of a history -/

/-- What labels can be after a history: those of the beginning, or such that every vertex has
    announced its label. -/
inductive Phase (n : Nat) : Labelling → Prop
  /-- No run has used the labels since the last reset. -/
  | fresh : Phase n (Labelling.new n)
  /-- A run has settled the labels. -/
  | settled {l : Labelling} (size_eq : l.marks.size = n) (descending : Descending l.marks)
      (quiet : ∀ v < n, announcedOf l.marks v ≤ labelOf l.marks v) : Phase n l

namespace Phase

theorem size_eq (h : Phase n l) : l.marks.size = n := by
  cases h with
  | fresh => exact size_new n
  | settled size_eq _ _ => exact size_eq

/-- The labels are in order throughout. -/
theorem descending (hn : n ≤ Text.maxWord) (h : Phase n l) : Descending l.marks := by
  cases h with
  | fresh => exact descending_new hn
  | settled _ descending _ => exact descending

/-- A reset forgets what was before. -/
theorem reset_eq (h : Phase n l) : l.reset = Labelling.new n := by
  rw [Labelling.reset, h.size_eq]

/-- **A run settles the labels,** whatever the graph. -/
theorem run (hn : n ≤ Text.maxWord) (h : Phase n l) (hg : g.numNodes = n) :
    Phase n ⟨(settle g l.marks).2⟩ := by
  refine .settled ?_ ?_ ?_
  · exact settle_keeps (fun hsize ann => ann.size_eq.trans hsize) h.size_eq
  · exact settle_keeps Descending.announcement (h.descending hn)
  · rw [← hg]
    exact quiet_settle g l.marks

/-- **An event keeps the phases.** -/
theorem handle (hn : n ≤ Text.maxWord) (h : Phase n l) (e : Event) : Phase n (l.handle e) := by
  cases e with
  | reset =>
    show Phase n l.reset
    rw [h.reset_eq]
    exact .fresh
  | run g =>
    rw [Labelling.handle_run]
    split
    next hg => exact h.run hn (hg.symm.trans h.size_eq)
    next => exact h

end Phase

/-- Once labels are quiet, runs leave them alone until the next reset. -/
theorem afterAll_of_quiet (hsize : l.marks.size = n)
    (quiet : ∀ v < n, announcedOf l.marks v ≤ labelOf l.marks v) {events : List Event}
    (hruns : ∀ e ∈ events, e ≠ .reset) : l.afterAll events = l := by
  induction events with
  | nil => rfl
  | cons e events ih =>
    have hfirst : l.handle e = l := by
      cases e with
      | reset => exact absurd rfl (hruns _ List.mem_cons_self)
      | run g =>
        rw [Labelling.handle_run]
        split
        next hg => rw [settle_of_quiet (by rw [← hg, hsize]; exact quiet)]
        next => rfl
    show (l.handle e).afterAll events = l
    rw [hfirst]
    exact ih fun d hd => hruns d (List.mem_cons_of_mem e hd)

/-! ### Histories -/

/-- What new labels of `n` vertices have become after events in order. -/
def labellingAfter (n : Nat) (events : List Event) : Labelling :=
  (Labelling.new n).afterAll events

theorem labellingAfter_append (n : Nat) (first second : List Event) :
    labellingAfter n (first ++ second) = (labellingAfter n first).afterAll second :=
  Labelling.afterAll_append _ first second

/-- **Every history** leaves the labels in a phase. -/
theorem phase_labellingAfter (hn : n ≤ Text.maxWord) (events : List Event) :
    Phase n (labellingAfter n events) := by
  induction events using List.reverseRecOn with
  | nil => exact .fresh
  | append_singleton events e ih =>
    rw [labellingAfter_append]
    exact ih.handle hn e

/-- Right after a reset, and in the beginning, the labels are new. -/
theorem labellingAfter_of_reset (hn : n ≤ Text.maxWord) {events : List Event}
    (h : events = [] ∨ ∃ before, events = before ++ [.reset]) :
    labellingAfter n events = Labelling.new n := by
  rcases h with rfl | ⟨before, rfl⟩
  · rfl
  · rw [labellingAfter_append]
    exact (phase_labellingAfter hn before).reset_eq

/-- What stands in the marks of an order. -/
theorem Descending.of_getElem? (h : Descending marks) {v : Nat} {m : Mark}
    (hm : marks[v]? = some m) : m.label ≤ m.announced ∧ m.label ≤ v := by
  have hle := h.le_announced v
  have hself := h.le_self v
  rw [labelOf_of_getElem? hm] at hle hself
  rw [announcedOf_of_getElem? hm] at hle
  exact ⟨hle, hself⟩

/-- **Runs after any history.** Between events no label exceeds what its vertex announced last, nor
    the number of its vertex. A run on a graph with as many vertices takes place, and then every
    vertex has announced its label. If it is the first one in the beginning or after a reset, it
    finds the labels of its graph. If another run has taken place since then, on whichever graph, it
    is one round and changes nothing. -/
theorem run_labellingAfter {n : Nat} (hn : n ≤ Text.maxWord) (events : List Event) :
    (labellingAfter n events).marks.size = n ∧
    (∀ (v : Nat) (m : Mark), (labellingAfter n events).marks[v]? = some m →
      m.label ≤ m.announced ∧ m.label ≤ v) ∧
    ∀ g : Graph, g.numNodes = n → ∃ rounds after,
      (labellingAfter n events).run? g = some (rounds, after) ∧
      labellingAfter n (events ++ [.run g]) = after ∧
      (∀ m ∈ after.marks, m.announced = m.label) ∧
      ((events = [] ∨ ∃ before, events = before ++ [.reset]) →
        after.labels = (propagate g).labels ∧ rounds = (propagate g).rounds) ∧
      ∀ before h between, events = before ++ .run h :: between → h.numNodes = n →
        (∀ e ∈ between, e ≠ .reset) → rounds = 1 ∧ after = labellingAfter n events := by
  have hphase := phase_labellingAfter hn events
  refine ⟨hphase.size_eq, fun v m => (hphase.descending hn).of_getElem?, fun g hg => ?_⟩
  have hsize := hphase.size_eq.trans hg.symm
  refine ⟨_, _, Labelling.run?_eq hsize, ?_, ?_, ?_, ?_⟩
  · rw [labellingAfter_append]
    show (labellingAfter n events).handle (.run g) = _
    rw [Labelling.handle_run, if_pos hsize]
  · intro m hm
    obtain ⟨v, hv, rfl⟩ := Array.mem_iff_getElem.1 hm
    have hget := Array.getElem?_eq_getElem hv
    have hafter := hphase.run hn hg
    have hlt : v < g.numNodes := by
      rw [hg, ← hafter.size_eq]
      exact hv
    have hquiet := quiet_settle g (labellingAfter n events).marks v hlt
    rw [announcedOf_of_getElem? hget, labelOf_of_getElem? hget] at hquiet
    exact Nat.le_antisymm hquiet ((hafter.descending hn).of_getElem? hget).1
  · intro hreset
    rw [labellingAfter_of_reset hn hreset, ← hg]
    exact ⟨rfl, rfl⟩
  · rintro before h between rfl hh hruns
    -- The earlier run has made the labels quiet, and nothing has touched them since.
    have hbefore := phase_labellingAfter hn before
    have hbetween : labellingAfter n (before ++ .run h :: between) =
        ⟨(settle h (labellingAfter n before).marks).2⟩ := by
      rw [labellingAfter_append]
      show ((labellingAfter n before).handle (.run h)).afterAll between = _
      rw [Labelling.handle_run, if_pos (hbefore.size_eq.trans hh.symm)]
      refine afterAll_of_quiet (hbefore.run hn hh).size_eq ?_ hruns
      rw [← hh]
      exact quiet_settle h _
    rw [hbetween, settle_of_quiet (by rw [hg, ← hh]; exact quiet_settle h _)]
    exact ⟨rfl, rfl⟩

/-! ### A fork and its symmetrized graph -/

/-- A run on the symmetrized fork, forgotten by a reset, and then one on the fork. -/
def forkedEvents : List Event :=
  [.run forkBoth, .reset, .run fork]

/-- The general theorem at these events: the run on the fork finds the labels of the fork, though
    the earlier run had joined all vertices. A further run on the symmetrized fork would join them
    again, but has nothing to do. -/
theorem run_labellingAfter_fork :
    4 ≤ Text.maxWord ∧ fork.numNodes = 4 ∧ forkBoth.numNodes = 4 ∧
      (labellingAfter 4 [.run forkBoth]).labels = #[0, 0, 0, 0] ∧
      (∃ after, (labellingAfter 4 [.run forkBoth, .reset]).run? fork = some (2, after) ∧
        after.labels = #[0, 1, 1, 3] ∧ ∀ m ∈ after.marks, m.announced = m.label) ∧
      ∃ after, (labellingAfter 4 forkedEvents).run? forkBoth = some (1, after) ∧
        after.labels = #[0, 1, 1, 3] := by
  have hn : 4 ≤ Text.maxWord := by decide
  have hfork : fork.numNodes = 4 := rfl
  have hboth : forkBoth.numNodes = 4 := rfl
  have hlabels : propagate fork = ⟨#[0, 1, 1, 3], 2⟩ := by decide +kernel
  obtain ⟨_, _, hruns⟩ := run_labellingAfter hn [.run forkBoth, .reset]
  obtain ⟨rounds, after, hrun, hafter, hannounced, hfirst, _⟩ := hruns fork hfork
  obtain ⟨hfound, hrounds⟩ := hfirst (.inr ⟨[.run forkBoth], rfl⟩)
  rw [hlabels] at hfound hrounds
  subst hrounds
  refine ⟨hn, hfork, hboth, by decide +kernel, ⟨after, hrun, hfound, hannounced⟩, ?_⟩
  obtain ⟨_, _, hruns⟩ := run_labellingAfter hn forkedEvents
  obtain ⟨rounds, again, hrun, _, _, _, hlater⟩ := hruns forkBoth hboth
  obtain ⟨rfl, rfl⟩ := hlater [.run forkBoth, .reset] fork [] rfl hfork (by simp)
  refine ⟨_, hrun, ?_⟩
  rw [show labellingAfter 4 forkedEvents = after from hafter]
  exact hfound

end SparseGraph.Component
