import SparseGraph.Graph.Basic

namespace SparseGraph.Graph

/-!
# Walks

A walk follows edges from vertex to vertex, and its weight is the sum of their weights, counted
without bound. Walks say what distances and components are about, without saying how they are
found.

* `Walk` — a walk from one vertex to another, with its weight;
* `Reaches` — whether there is a walk from one vertex to another;
* `Linked` — whether there is one if edges may be followed in both directions.
-/

/-- A walk from the first vertex to the second, of this weight. -/
inductive Walk (g : Graph) (source : Nat) : Nat → Nat → Prop
  | stay : Walk g source source 0
  | step {v weight : Nat} {a : Arc} (walk : Walk g source v weight) (h : a ∈ g.arcs v) :
      Walk g source a.target.toNat (weight + a.weight.toNat)

/-- Whether there is a walk from the first vertex to the second. -/
def Reaches (g : Graph) (source v : Nat) : Prop :=
  ∃ weight, g.Walk source v weight

/-- Whether the vertices are joined by edges, followed in either direction. -/
inductive Linked (g : Graph) (source : Nat) : Nat → Prop
  | stay : Linked g source source
  | along {v : Nat} {a : Arc} (h : Linked g source v) (ha : a ∈ g.arcs v) :
      Linked g source a.target.toNat
  | against {v : Nat} {a : Arc} (h : Linked g source a.target.toNat) (ha : a ∈ g.arcs v) :
      Linked g source v

variable {g : Graph} {u v w : Nat}

/-- Walks follow one another, and their weights add up. -/
theorem Walk.append {first second : Nat} (h₁ : g.Walk u v first) (h₂ : g.Walk v w second) :
    g.Walk u w (first + second) := by
  induction h₂ with
  | stay => exact h₁
  | step _ ha ih => rw [← Nat.add_assoc]; exact .step ih ha

@[refl] theorem Reaches.refl (g : Graph) (v : Nat) : g.Reaches v v :=
  ⟨0, .stay⟩

theorem Linked.trans (h₁ : g.Linked u v) (h₂ : g.Linked v w) : g.Linked u w := by
  induction h₂ with
  | stay => exact h₁
  | along _ ha ih => exact .along ih ha
  | against _ ha ih => exact .against ih ha

/-- Edges may be followed in either direction, so what links two vertices links them both ways. -/
theorem Linked.symm (h : g.Linked u v) : g.Linked v u := by
  induction h with
  | stay => exact .stay
  | along _ ha ih => exact .trans (.against .stay ha) ih
  | against _ ha ih => exact .trans (.along .stay ha) ih

end SparseGraph.Graph
