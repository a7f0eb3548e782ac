import SparseGraph.Cell
import SparseGraph.Graph.Basic
import SparseGraph.Text.Numeral

namespace SparseGraph.Component

/-!
# Label propagation

Every vertex begins with its own number as label. In a round the vertices are visited in order: one
whose label dropped since it last announced it lowers the labels of its targets to its own. Rounds
go on until one in which no vertex announces anything.

* `Mark` — the label of a vertex, and the label it announced last;
* `visit`, `sweep` — one vertex, and one round;
* `Labelling` — the marks of all vertices, for several runs;
* `propagate` — the labels of a graph.

A run ends because a vertex that announces lowers the sum of the announced labels.
-/

/-- The label of a vertex, and the label it announced last. -/
structure Mark where
  label : Nat
  announced : Nat
deriving DecidableEq, Repr, Inhabited

/-- What a vertex that has announced nothing holds as announced. -/
def unannounced : Nat :=
  Text.maxWord

/-- Lower the label of a vertex. -/
def lowerLabel (marks : Array Mark) (v label : Nat) : Array Mark :=
  marks.modify v fun m => { m with label := (lowered? m.label label).getD m.label }

/-- Visit a vertex; the flag tells whether any vertex announced its label in this round. -/
def visit (g : Graph) (s : Array Mark × Flag) (v : Nat) : Array Mark × Flag :=
  match s.1[v]? with
  | none => s
  | some m =>
    -- Nothing new since the last announcement.
    if m.announced ≤ m.label then s
    else
      let marks := s.1.setIfInBounds v { m with announced := m.label }
      ((g.arcs v).foldl (fun marks a => lowerLabel marks a.target.toNat m.label) marks,
        s.2.update true)

/-- Visit the vertices in the given order. -/
def sweepIn (g : Graph) (order : List Nat) (marks : Array Mark) : Array Mark × Flag :=
  order.foldl (visit g) (marks, {})

/-- Visit all vertices in their order. -/
def sweep (g : Graph) (marks : Array Mark) : Array Mark × Flag :=
  sweepIn g (List.range g.numNodes) marks

/-! ### Announcing lowers the announced labels -/

/-- The sum of the announced labels. -/
def announcedSum (marks : Array Mark) : Nat :=
  total (marks.toList.map Mark.announced)

theorem announcedSum_lowerLabel (marks : Array Mark) (v label : Nat) :
    announcedSum (lowerLabel marks v label) = announcedSum marks := by
  unfold announcedSum lowerLabel
  rw [Array.toList_modify]
  generalize marks.toList = l
  induction l generalizing v with
  | nil => simp
  | cons m l ih =>
    cases v with
    | zero => simp
    | succ v => simpa [total] using ih v

theorem announcedSum_foldl_lowerLabel (arcs : List Arc) (marks : Array Mark) (label : Nat) :
    announcedSum (arcs.foldl (fun marks a => lowerLabel marks a.target.toNat label) marks) =
      announcedSum marks := by
  induction arcs generalizing marks with
  | nil => rfl
  | cons a arcs ih => rw [List.foldl_cons, ih, announcedSum_lowerLabel]

theorem announcedSum_set_lt {marks : Array Mark} {v : Nat} {m new : Mark}
    (hv : marks[v]? = some m) (hm : new.announced < m.announced) :
    announcedSum (marks.setIfInBounds v new) < announcedSum marks := by
  have hlt : v < marks.toList.length := by
    simpa using (Array.getElem?_eq_some_iff.1 hv).1
  have hget : marks.toList[v] = m := by
    simpa using (Array.getElem?_eq_some_iff.1 hv).2
  have hsum := total_set_add_getElem (marks.toList.map Mark.announced) v new.announced
    (by simpa using hlt)
  rw [List.getElem_map, hget] at hsum
  unfold announcedSum
  rw [Array.toList_setIfInBounds, List.map_set]
  omega

/-- A visit keeps the sum of the announced labels, or lowers it and raises the flag. -/
theorem visit_cases (g : Graph) (s : Array Mark × Flag) (v : Nat) :
    visit g s v = s ∨
      announcedSum (visit g s v).1 < announcedSum s.1 ∧ (visit g s v).2.raised = true := by
  unfold visit
  split
  next => exact .inl rfl
  next m hm =>
    split
    next => exact .inl rfl
    next hlt =>
      refine .inr ⟨?_, rfl⟩
      rw [announcedSum_foldl_lowerLabel]
      exact announcedSum_set_lt hm (Nat.lt_of_not_le hlt)

theorem sweepIn_cases (g : Graph) (order : List Nat) (s : Array Mark × Flag) :
    order.foldl (visit g) s = s ∨
      announcedSum (order.foldl (visit g) s).1 < announcedSum s.1 ∧
        (order.foldl (visit g) s).2.raised = true := by
  induction order generalizing s with
  | nil => exact .inl rfl
  | cons v order ih =>
    rw [List.foldl_cons]
    rcases visit_cases g s v with hv | ⟨hv, hr⟩
    · rw [hv]; exact ih s
    · rcases ih (visit g s v) with h | ⟨h, hrest⟩
      · rw [h]; exact .inr ⟨hv, hr⟩
      · exact .inr ⟨Nat.lt_trans h hv, hrest⟩

theorem announcedSum_sweepIn {g : Graph} {order : List Nat} {marks : Array Mark}
    (h : (sweepIn g order marks).2.raised = true) :
    announcedSum (sweepIn g order marks).1 < announcedSum marks := by
  rcases sweepIn_cases g order (marks, {}) with hs | ⟨hs, _⟩
  · rw [sweepIn, hs] at h
    cases h
  · exact hs

/-! ### Runs -/

/-- Rounds until one is quiet: their number and the marks after them. -/
def settle (g : Graph) (marks : Array Mark) : Nat × Array Mark :=
  if _h : (sweep g marks).2.raised = true then
    let (rounds, settled) := settle g (sweep g marks).1
    (rounds + 1, settled)
  else (1, (sweep g marks).1)
termination_by announcedSum marks
decreasing_by exact announcedSum_sweepIn _h

/-- The marks of all vertices, kept for several runs. -/
structure Labelling where
  marks : Array Mark
deriving DecidableEq, Repr

namespace Labelling

/-- Each of `n` vertices has its own label and has announced nothing. -/
def new (n : Nat) : Labelling :=
  ⟨(Array.range n).map (⟨·, unannounced⟩)⟩

/-- Begin anew. -/
def reset (l : Labelling) : Labelling :=
  new l.marks.size

/-- The labels of all vertices. -/
def labels (l : Labelling) : Array Nat :=
  l.marks.map Mark.label

/-- The label of a vertex. -/
def label? (l : Labelling) (v : Nat) : Option Nat :=
  l.marks[v]?.map Mark.label

/-- One run: the number of its rounds and the labels after it. It needs labels for just the
    vertices of the graph. -/
def run? (g : Graph) (l : Labelling) : Option (Nat × Labelling) :=
  if l.marks.size = g.numNodes then
    let (rounds, marks) := settle g l.marks
    some (rounds, ⟨marks⟩)
  else none

end Labelling

/-- Labels of the vertices of a graph, and the number of rounds that led to them. -/
structure Result where
  labels : Array Nat
  rounds : Nat
deriving DecidableEq, Repr

/-- The labels of a graph. -/
def propagate (g : Graph) : Result :=
  let (rounds, marks) := settle g (Labelling.new g.numNodes).marks
  ⟨marks.map Mark.label, rounds⟩

end SparseGraph.Component
