import SparseGraph.Component.LabelPropagation

namespace SparseGraph.Component

/-!
# Schedules of label propagation

In a round every vertex is visited once, but workers may do so in any order, chosen anew for each
round. Labels may also be kept for runs on further graphs.

* `Round` — a round in some order;
* `Settles` — rounds, each in some order, up to one in which nothing is announced;
* `settleIn` — the run whose rounds follow given orders;
* `Event`, `Labelling.handle`, `Labelling.afterAll` — what can happen to labels that are kept.
-/

/-- A round that visits the vertices in some order, and whether any of them announced its label. -/
def Round (g : Graph) (before after : Array Mark) (announced : Bool) : Prop :=
  ∃ order : List Nat, order.Perm (List.range g.numNodes) ∧
    sweepIn g order before = (after, ⟨announced⟩)

/-- So many rounds lead to these marks, and nothing is announced in the last of them. -/
inductive Settles (g : Graph) : Array Mark → Nat → Array Mark → Prop
  | quiet {before after : Array Mark} (h : Round g before after false) : Settles g before 1 after
  | loud {before between after : Array Mark} {rounds : Nat} (h : Round g before between true)
      (rest : Settles g between rounds after) : Settles g before (rounds + 1) after

/-- Rounds in the given orders until one is quiet: their number and the marks after them. -/
def settleIn (g : Graph) (orders : Nat → List Nat) (marks : Array Mark) : Nat × Array Mark :=
  if _h : (sweepIn g (orders 0) marks).2.raised = true then
    let (rounds, settled) := settleIn g (fun k => orders (k + 1)) (sweepIn g (orders 0) marks).1
    (rounds + 1, settled)
  else (1, (sweepIn g (orders 0) marks).1)
termination_by announcedSum marks
decreasing_by exact announcedSum_sweepIn _h

/-- A run is settled by its rounds if each order visits every vertex once. -/
theorem settles_settleIn {g : Graph} {orders : Nat → List Nat}
    (h : ∀ k, (orders k).Perm (List.range g.numNodes)) (marks : Array Mark) :
    Settles g marks (settleIn g orders marks).1 (settleIn g orders marks).2 := by
  fun_induction settleIn g orders marks with
  | case1 orders marks raised rounds settled heq ih =>
    have ih := ih fun k => h (k + 1)
    rw [heq] at ih
    exact .loud ⟨_, h 0, Prod.ext rfl (congrArg Flag.mk raised)⟩ ih
  | case2 orders marks quiet =>
    exact .quiet ⟨_, h 0, Prod.ext rfl (congrArg Flag.mk (Bool.eq_false_iff.2 quiet))⟩

/-- The run in the order of the vertices follows that order in every round. -/
theorem settleIn_range (g : Graph) (marks : Array Mark) :
    settleIn g (fun _ => List.range g.numNodes) marks = settle g marks := by
  fun_induction settle g marks with
  | case1 marks raised rounds settled heq ih =>
    unfold sweep at raised heq ih
    rw [settleIn, dif_pos raised, ih, heq]
  | case2 marks quiet =>
    unfold sweep at quiet ⊢
    rw [settleIn, dif_neg quiet]

/-- The rounds in the order of the vertices are one of the schedules. -/
theorem settles_settle (g : Graph) (marks : Array Mark) :
    Settles g marks (settle g marks).1 (settle g marks).2 := by
  rw [← settleIn_range]
  exact settles_settleIn (fun _ => .refl _) marks

/-! ### Histories -/

/-- What can happen to labels that are kept. -/
inductive Event where
  | reset
  | run (g : Graph)

/-- The labels after an event. A run on a graph of another size changes nothing. -/
def Labelling.handle (l : Labelling) : Event → Labelling
  | .reset => l.reset
  | .run g =>
    match l.run? g with
    | some (_, l) => l
    | none => l

/-- The labels after events in order. -/
def Labelling.afterAll (l : Labelling) (events : List Event) : Labelling :=
  events.foldl Labelling.handle l

theorem Labelling.afterAll_append (l : Labelling) (first second : List Event) :
    l.afterAll (first ++ second) = (l.afterAll first).afterAll second :=
  List.foldl_append

end SparseGraph.Component
