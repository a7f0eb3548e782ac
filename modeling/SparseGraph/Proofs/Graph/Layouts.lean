import SparseGraph.Graph.Layout
import SparseGraph.Proofs.Fallible
import SparseGraph.Proofs.Graph.Tiling

namespace SparseGraph

open Text (maxWord)

/-!
# Reading what is kept of a graph

Whatever graph is kept, its arrays are only read where they have words: the row of a vertex lies
between two offsets that neither descend nor lead beyond the targets and weights.

* `wordAt_eq_ok_iff`, `setWord_of_lt`, `slice_of_le`, `addWords_ofNat`, `subtractWords_of_le` — when
  a single step can be taken;
* `Layout.RowBetween` — what is read of a vertex;
* `Graph.rowBetween` — the rows of a graph that is kept;
* `Graph.rowOf_layout` — they are its arcs;
* `kept_eq_ok_iff`, `kept_eq_error_iff` — what is kept of an attempt.
-/

/-! ### Single steps -/

section
variable {words : Array UInt32} {i first last : Nat} {w : UInt32}

theorem wordAt_eq_ok_iff : wordAt words i = .ok w ↔ words[i]? = some w := by
  unfold wordAt
  split
  next h => rw [h, Except.ok.injEq, Option.some.injEq]
  next h => rw [h]; exact iff_of_false nofun nofun

theorem setWord_of_lt (h : i < words.size) :
    setWord words i w = .ok (words.setIfInBounds i w) :=
  if_pos h

theorem slice_of_le (h : first ≤ last) (h' : last ≤ words.size) :
    slice words first last = .ok (words.extract first last) :=
  if_pos ⟨h, h'⟩

/-- Numbers are added as words as long as a word can hold the sum. -/
theorem addWords_ofNat {a b : Nat} (h : a + b ≤ maxWord) :
    addWords (UInt32.ofNat a) (UInt32.ofNat b) = .ok (UInt32.ofNat (a + b)) := by
  have ha : a < UInt32.size := Text.lt_size_iff.2 (by omega)
  have hb : b < UInt32.size := Text.lt_size_iff.2 (by omega)
  unfold addWords
  rw [UInt32.toNat_ofNat_of_lt' ha, UInt32.toNat_ofNat_of_lt' hb, if_pos h, UInt32.ofNat_add]

theorem subtractWords_of_le {a b : UInt32} (h : b ≤ a) : subtractWords a b = .ok (a - b) :=
  if_pos h

end

/-! ### Rows -/

/-- The row of a vertex lies between these two offsets, and this is what is read of it. -/
structure Layout.RowBetween (l : Layout) (v : Nat) (first last : UInt32) : Prop where
  first_eq : l.offsets[v]? = some first
  last_eq : l.offsets[v + 1]? = some last
  first_le : first ≤ last
  last_le : last.toNat ≤ l.targets.size
  outDegree_eq : l.outDegree v = .ok (last - first)
  neighbors_eq : l.neighbors v = .ok (l.targets.extract first.toNat last.toNat)
  rowOf_eq : l.rowOf v = .ok (l.targets.extract first.toNat last.toNat,
    l.weights.extract first.toNat last.toNat)

namespace Graph

variable {g : Graph} {v : Nat}

/-- No offset is lost in a word. -/
theorem toNat_ofNat_start (hv : v ≤ g.numNodes) : (UInt32.ofNat (g.start v)).toNat = g.start v := by
  have hle := Nat.le_trans (start_le hv) g.numEdges_le
  exact UInt32.toNat_ofNat_of_lt' (Text.lt_size_iff.2 hle)

/-- Offsets are in order as words. -/
theorem ofNat_start_le (hv : v < g.numNodes) :
    UInt32.ofNat (g.start v) ≤ UInt32.ofNat (g.start (v + 1)) := by
  rw [UInt32.le_iff_toNat_le, toNat_ofNat_start (Nat.le_of_lt hv), toNat_ofNat_start hv]
  exact start_mono (Nat.le_succ v) hv

/-- A degree is the difference of two offsets, as words too. -/
theorem ofNat_degree (hv : v < g.numNodes) :
    UInt32.ofNat (g.degree v) = UInt32.ofNat (g.start (v + 1)) - UInt32.ofNat (g.start v) := by
  have hdegree : g.degree v ≤ maxWord :=
    Nat.le_trans (Nat.sub_le _ _) (Nat.le_trans (start_le hv) g.numEdges_le)
  apply UInt32.toNat_inj.1
  rw [UInt32.toNat_sub_of_le _ _ (ofNat_start_le hv), toNat_ofNat_start (Nat.le_of_lt hv),
    toNat_ofNat_start hv]
  exact UInt32.toNat_ofNat_of_lt' (Text.lt_size_iff.2 hdegree)

theorem getElem?_degrees_layout (hv : v < g.numNodes) :
    g.layout.degrees[v]? = some (UInt32.ofNat (g.degree v)) := by
  show ((List.range g.numNodes).map fun v => UInt32.ofNat (g.degree v)).toArray[v]? = _
  rw [List.getElem?_toArray, List.getElem?_map, List.getElem?_range hv, Option.map_some]

/-- **The rows of a graph that is kept** are read within its arrays. -/
theorem rowBetween (hv : v < g.numNodes) :
    g.layout.RowBetween v (UInt32.ofNat (g.start v)) (UInt32.ofNat (g.start (v + 1))) := by
  have hfirst := toNat_ofNat_start (Nat.le_of_lt hv)
  have hlast := toNat_ofNat_start (g := g) (v := v + 1) hv
  have hmono : g.start v ≤ g.start (v + 1) := start_mono (Nat.le_succ v) hv
  have hend : g.start (v + 1) ≤ g.targets.size := start_le hv
  have hend' : g.start (v + 1) ≤ g.weights.size := by rwa [g.size_weights]
  have hle := ofNat_start_le hv
  have hoffset : wordAt g.layout.offsets v = .ok (UInt32.ofNat (g.start v)) :=
    wordAt_eq_ok_iff.2 (g.getElem?_offsets (Nat.le_of_lt hv))
  have hoffset' : wordAt g.layout.offsets (v + 1) = .ok (UInt32.ofNat (g.start (v + 1))) :=
    wordAt_eq_ok_iff.2 (g.getElem?_offsets hv)
  have hbounds : g.layout.bounds v = .ok (g.start v, g.start (v + 1)) := by
    rw [Layout.bounds, hoffset, ok_bind, hoffset', ok_bind, hfirst, hlast]
    rfl
  have htargets : slice g.layout.targets (g.start v) (g.start (v + 1)) =
      .ok (g.targets.extract (g.start v) (g.start (v + 1))) := slice_of_le hmono hend
  have hweights : slice g.layout.weights (g.start v) (g.start (v + 1)) =
      .ok (g.weights.extract (g.start v) (g.start (v + 1))) := slice_of_le hmono hend'
  exact {
    first_eq := g.getElem?_offsets (Nat.le_of_lt hv)
    last_eq := g.getElem?_offsets hv
    first_le := hle
    last_le := by rwa [hlast]
    outDegree_eq := by
      rw [Layout.outDegree, wordAt_eq_ok_iff, getElem?_degrees_layout hv, ofNat_degree hv]
    neighbors_eq := by
      rw [Layout.neighbors, hbounds, ok_bind, htargets, hfirst, hlast]
      rfl
    rowOf_eq := by
      rw [Layout.rowOf, hbounds, ok_bind, htargets, ok_bind, hweights, ok_bind, hfirst, hlast]
      rfl }

/-- **What is read of a vertex** are its arcs. -/
theorem rowOf_layout (hv : v < g.numNodes) :
    g.layout.rowOf v =
      .ok (((g.arcs v).map Arc.target).toArray, ((g.arcs v).map Arc.weight).toArray) := by
  obtain ⟨htargets, hweights⟩ := g.map_slots
  have hslice : ∀ (words : Array UInt32) (field : Arc → UInt32),
      g.slots.map field = words.toList →
      words.extract (g.start v) (g.start (v + 1)) = ((g.arcs v).map field).toArray := by
    intro words field hwords
    apply Array.toList_inj.1
    rw [Array.toList_extract, List.extract_eq_take_drop, ← hwords, arcs_eq_slots, List.map_take,
      List.map_drop]
  rw [(rowBetween hv).rowOf_eq, toNat_ofNat_start (Nat.le_of_lt hv), toNat_ofNat_start hv]
  exact congrArg Except.ok (Prod.ext (hslice _ _ htargets) (hslice _ _ hweights))

end Graph

/-! ### Attempts -/

section
variable {result : Except GraphError Graph} {l : Layout} {stop : Stop}

/-- What is kept is a graph that could be built. -/
theorem kept_eq_ok_iff : kept result = .ok l ↔ ∃ g, result = .ok g ∧ g.layout = l := by
  cases result <;> simp [kept, Except.map, Except.mapError]

/-- If there is no graph to be kept, the input is refused. -/
theorem kept_eq_error_iff :
    kept result = .error stop ↔ ∃ error, result = .error error ∧ .refused error = stop := by
  cases result <;> simp [kept, Except.map, Except.mapError]

end

end SparseGraph
