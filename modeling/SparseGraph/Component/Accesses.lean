import SparseGraph.Component.UnionFind

namespace SparseGraph.Component

/-!
# Disjoint sets, access by access

The pointers of a forest stand in one array, which is read and written at one vertex after another.
Here the components of a graph are found in single steps, each of which looks at one vertex, and an
access beyond the array ends the run without a result.

* `Goal`, `Task` — what a root is searched for, and what there is left to do;
* `Machine` — the array and the task;
* `Machine.step?`, `Machine.after?` — one step, and several;
* `Ends`, `Joined` — where pointers lead, and which vertices edges join;
* `Machine.Sound` — what the pointers are in the middle of a run.
-/

/-- What the root of a vertex is searched for. -/
inductive Goal where
  /-- The vertex is the source of this edge. -/
  | source (e : Edge) (rest : List Edge)
  /-- The vertex is the target of this edge, and the root of its source has been found. -/
  | target (e : Edge) (root : Nat) (rest : List Edge)
  /-- The vertex comes behind those with these labels. -/
  | label (labels : List Nat)
deriving DecidableEq, Repr

/-- What there is left to do. -/
inductive Task where
  /-- Join the ends of edges. -/
  | join (edges : List Edge)
  /-- Search the root of a vertex. -/
  | climb (x : Nat) (goal : Goal)
  /-- Label the vertices behind those with these labels. -/
  | list (labels : List Nat)
  /-- Nothing: these are the labels. -/
  | finished (labels : List Nat)
deriving DecidableEq, Repr

/-- Pointers in the middle of a run. -/
structure Machine where
  parent : Array Nat
  task : Task
deriving DecidableEq, Repr

/-- Write to a place of the array, which it must have. -/
def write? (parent : Array Nat) (i j : Nat) : Option (Array Nat) :=
  if i < parent.size then some (parent.setIfInBounds i j) else none

/-- Point the greater of two roots to the lesser. -/
def link? (parent : Array Nat) (a b : Nat) : Option (Array Nat) :=
  if a < b then write? parent b a
  else if b < a then write? parent a b
  else some parent

namespace Machine

/-- Go on with the root that was searched. -/
def reached? (m : Machine) (root : Nat) : Goal → Option Machine
  | .source e rest => some ⟨m.parent, .climb e.target.toNat (.target e root rest)⟩
  | .target _ other rest => (link? m.parent other root).map (⟨·, .join rest⟩)
  | .label labels => some ⟨m.parent, .list (labels ++ [root])⟩

/-- Look at one vertex of a search: a root is what was searched, and from any other vertex, which is
    pointed to its grandparent, the search goes on there. -/
def climb? (m : Machine) (x : Nat) (goal : Goal) : Option Machine := do
  let p ← m.parent[x]?
  if p = x then m.reached? x goal
  else
    let grand ← m.parent[p]?
    let parent ← write? m.parent x grand
    return ⟨parent, .climb grand goal⟩

/-- One step with the pointers of `n` vertices. -/
def step? (n : Nat) (m : Machine) : Option Machine :=
  match m.task with
  | .join [] => some ⟨m.parent, .list []⟩
  | .join (e :: rest) => some ⟨m.parent, .climb e.source.toNat (.source e rest)⟩
  | .climb x goal => m.climb? x goal
  | .list labels =>
    if labels.length < n then some ⟨m.parent, .climb labels.length (.label labels)⟩
    else some ⟨m.parent, .finished labels⟩
  | .finished _ => some m

/-- Each vertex points to itself, and all edges are left to join. -/
def start (g : Graph) : Machine :=
  ⟨Array.range g.numNodes, .join g.edges⟩

/-- The machine of a graph after so many steps, if every access was one to the array. -/
def after? (g : Graph) : Nat → Option Machine
  | 0 => some (start g)
  | k + 1 => (after? g k).bind (step? g.numNodes)

end Machine

/-- The edges that are left to join. -/
def Goal.pending : Goal → List Edge
  | .source e rest => e :: rest
  | .target e _ rest => e :: rest
  | .label _ => []

/-- The edges that are left to join. -/
def Task.pending : Task → List Edge
  | .join edges => edges
  | .climb _ goal => goal.pending
  | .list _ => []
  | .finished _ => []

/-! ### What the pointers mean -/

/-- The pointers of the first vertex lead to the second, which points to itself. -/
inductive Ends (parent : Array Nat) : Nat → Nat → Prop
  | root {r : Nat} (h : parent[r]? = some r) : Ends parent r r
  | up {v p r : Nat} (h : parent[v]? = some p) (rest : Ends parent p r) : Ends parent v r

/-- Whether edges of the list, followed in either direction, lead from one vertex to another. -/
inductive Joined (edges : List Edge) (u : Nat) : Nat → Prop
  | stay : Joined edges u u
  | along {e : Edge} (h : Joined edges u e.source.toNat) (he : e ∈ edges) :
      Joined edges u e.target.toNat
  | against {e : Edge} (h : Joined edges u e.target.toNat) (he : e ∈ edges) :
      Joined edges u e.source.toNat

/-- What the pointers are in the middle of a run on a graph. -/
structure Machine.Sound (g : Graph) (m : Machine) : Prop where
  size_eq : m.parent.size = g.numNodes
  /-- No vertex points to a greater one. -/
  parent_le : ∀ i p : Nat, m.parent[i]? = some p → p ≤ i
  /-- A search that has not come to a root goes on at a lesser vertex. -/
  climb_lt : ∀ x goal, m.task = .climb x goal → m.parent[x]? ≠ some x →
    ∃ parent, ∃ grand < x, m.step? g.numNodes = some ⟨parent, .climb grand goal⟩
  /-- Pointers end at the least of the vertices that the edges so far join. -/
  ends_iff : ∃ done, done ++ m.task.pending = g.edges ∧
    ∀ v < g.numNodes, ∀ r, Ends m.parent v r ↔ Joined done r v ∧ ∀ w, Joined done w v → r ≤ w

end SparseGraph.Component
