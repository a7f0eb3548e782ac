import SparseGraph.Graph.Walk
import SparseGraph.ShortestPath.Distance

namespace SparseGraph.ShortestPath

/-!
# Least weights of walks

The distance of a vertex is the least weight of a walk that leads to it, cut off at `infinity`.

* `IsLeastWeight` — the least weight of a walk from a source;
* `IsDistance` — the distance from a source;
* `IsDistance.unique` — a vertex has no more than one distance.
-/

/-- No walk from `source` to `v` is lighter than `weight`, and one is as light. -/
def IsLeastWeight (g : Graph) (source v weight : Nat) : Prop :=
  g.Walk source v weight ∧ ∀ other, g.Walk source v other → weight ≤ other

/-- The distance of `v` from `source` is `d`: the least weight of a walk there, as far as it can be
    counted, or `infinity` if there is no walk. -/
def IsDistance (g : Graph) (source v d : Nat) : Prop :=
  (∃ weight, IsLeastWeight g source v weight ∧ d = min infinity weight) ∨
    (¬ g.Reaches source v ∧ d = infinity)

theorem IsLeastWeight.unique {g : Graph} {source v a b : Nat} (ha : IsLeastWeight g source v a)
    (hb : IsLeastWeight g source v b) : a = b :=
  Nat.le_antisymm (ha.2 b hb.1) (hb.2 a ha.1)

/-- A vertex has no more than one distance. -/
theorem IsDistance.unique {g : Graph} {source v a b : Nat} (ha : IsDistance g source v a)
    (hb : IsDistance g source v b) : a = b := by
  rcases ha with ⟨x, hx, rfl⟩ | ⟨hn, rfl⟩ <;> rcases hb with ⟨y, hy, rfl⟩ | ⟨hm, rfl⟩
  · rw [hx.unique hy]
  · exact absurd ⟨x, hx.1⟩ hm
  · exact absurd ⟨y, hy.1⟩ hn
  · rfl

end SparseGraph.ShortestPath
