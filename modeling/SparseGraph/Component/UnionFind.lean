import SparseGraph.Graph.Basic

namespace SparseGraph.Component

/-!
# Disjoint sets of vertices

Vertices that belong together form a tree in which every vertex points to a smaller one or, at the
root, to itself. The root of a tree is therefore its least vertex, and a walk up the tree ends.

* `Forest` — the pointers of all vertices;
* `Forest.find` — the root of a vertex; on the way every other vertex is pointed to its
  grandparent;
* `Forest.union` — join the trees of two vertices;
* `weakComponents` — the least vertex of the component of each vertex, edges taken both ways.
-/

/-- Pointers from vertices to vertices that are not greater. -/
structure Forest where
  parent : Array Nat
  parent_le : ∀ i, parent.getD i i ≤ i

namespace Forest

/-- `n` vertices, each a tree of its own. -/
def singletons (n : Nat) : Forest where
  parent := Array.range n
  parent_le i := by
    rw [Array.getD_eq_getD_getElem?, Array.getElem?_range]
    split <;> simp

/-- Where a vertex points. -/
def parentOf (f : Forest) (x : Nat) : Nat :=
  f.parent.getD x x

/-- Let `i` point to `j`. -/
def point (f : Forest) (i j : Nat) (le : j ≤ i) : Forest where
  parent := f.parent.setIfInBounds i j
  parent_le k := by
    have hk := f.parent_le k
    rw [Array.getD_eq_getD_getElem?] at hk ⊢
    rw [Array.getElem?_setIfInBounds]
    split
    next h =>
      subst h
      split
      · exact le
      · exact Nat.le_refl _
    next => exact hk

theorem parentOf_le (f : Forest) (x : Nat) : f.parentOf x ≤ x :=
  f.parent_le x

/-- The root of `x`. The vertices on the way there are pointed to their grandparents, and only
    every other of them is visited. -/
def find (f : Forest) (x : Nat) : Forest × Nat :=
  if _h : f.parentOf x = x then (f, x)
  else
    let grand := f.parentOf (f.parentOf x)
    (f.point x grand (Nat.le_trans (f.parentOf_le _) (f.parentOf_le x))).find grand
termination_by x
decreasing_by
  -- The first step leads away from `x`, and the second does not lead back.
  have h₁ := f.parentOf_le x
  have h₂ := f.parentOf_le (f.parentOf x)
  omega

/-- Join the trees of `x` and `y`; the smaller root becomes the root of both. -/
def union (f : Forest) (x y : Nat) : Forest :=
  let (f, a) := f.find x
  let (f, b) := f.find y
  if h : a < b then f.point b a (Nat.le_of_lt h)
  else if h : b < a then f.point a b (Nat.le_of_lt h)
  else f

/-- The roots of vertices, found one after another. -/
def roots (f : Forest) : List Nat → List Nat
  | [] => []
  | x :: xs =>
    let (f, r) := f.find x
    r :: f.roots xs

/-- The forest in which the ends of each edge have been joined. -/
def ofEdges (n : Nat) (edges : List Edge) : Forest :=
  edges.foldl (fun f e => f.union e.source.toNat e.target.toNat) (singletons n)

end Forest

/-- For each vertex the least vertex that it is connected to, edges taken both ways. -/
def weakComponents (g : Graph) : List Nat :=
  (Forest.ofEdges g.numNodes g.edges).roots (List.range g.numNodes)

end SparseGraph.Component
