import SparseGraph.GraphError
import SparseGraph.Text.Numeral

namespace SparseGraph

open Text (maxWord)

/-!
# Graphs as compressed sparse rows

A directed graph with weighted edges, held in three arrays of 32-bit words: the edges of vertex
`v` stand at the positions from `offsets[v]` up to `offsets[v + 1]` of the targets and weights.
What ties the arrays together is part of the type, so a graph cannot be ill formed.

* `Edge`, `Arc` — an edge, and an edge seen from its source;
* `Graph` — the three arrays;
* `Graph.arcs` — the edges out of a vertex, in order;
* `Graph.edges` — all edges, by source;
* `Graph.ofParts` — the graph of given arrays, if they describe one.
-/

/-- A directed edge with its weight. -/
structure Edge where
  source : UInt32
  target : UInt32
  weight : UInt32
deriving DecidableEq, Repr, Inhabited

/-- An edge seen from its source. -/
structure Arc where
  target : UInt32
  weight : UInt32
deriving DecidableEq, Repr, Inhabited

/-- The edge as its source sees it. -/
def Edge.arc (e : Edge) : Arc :=
  ⟨e.target, e.weight⟩

/-- The edge back, with the same weight. -/
def Edge.reverse (e : Edge) : Edge :=
  ⟨e.target, e.source, e.weight⟩

/-- The edge that `source` sees as `a`. -/
def Arc.edgeFrom (source : UInt32) (a : Arc) : Edge :=
  ⟨source, a.target, a.weight⟩

@[simp] theorem Arc.source_edgeFrom (s : UInt32) (a : Arc) : (a.edgeFrom s).source = s := rfl

@[simp] theorem Arc.arc_edgeFrom (s : UInt32) (a : Arc) : (a.edgeFrom s).arc = a := rfl

@[simp] theorem Edge.edgeFrom_arc (e : Edge) : e.arc.edgeFrom e.source = e := rfl

/-- Pairs of words by their first and then their second. -/
def pairLe (p q : UInt32 × UInt32) : Bool :=
  p.1 < q.1 || (p.1 == q.1 && p.2 ≤ q.2)

/-- The source and target of an edge. -/
def Edge.ends (e : Edge) : UInt32 × UInt32 :=
  (e.source, e.target)

/-- A directed weighted graph as compressed sparse rows. -/
structure Graph where
  /-- Where the edges of each vertex begin, and after the last vertex where they end. -/
  offsets : Array UInt32
  /-- The targets of all edges, by source. -/
  targets : Array UInt32
  /-- The weights of all edges, by source. -/
  weights : Array UInt32
  first_offset : offsets[0]? = some 0
  last_offset : offsets.back?.map UInt32.toNat = some targets.size
  sorted_offsets : offsets.toList.Pairwise (· ≤ ·)
  size_weights : weights.size = targets.size
  target_lt : ∀ t ∈ targets, t.toNat + 1 < offsets.size

namespace Graph

instance : DecidableEq Graph := fun g h =>
  if e : g.offsets = h.offsets ∧ g.targets = h.targets ∧ g.weights = h.weights then
    -- The other fields are propositions, so graphs with equal arrays are equal.
    .isTrue (by
      obtain ⟨ho, ht, hw⟩ := e
      cases g; cases h; cases ho; cases ht; cases hw; rfl)
  else .isFalse (fun eq => e (eq ▸ ⟨rfl, rfl, rfl⟩))

/-- The number of vertices, which are `0, 1, …`. -/
def numNodes (g : Graph) : Nat :=
  g.offsets.size - 1

/-- The number of edges. -/
def numEdges (g : Graph) : Nat :=
  g.targets.size

theorem size_offsets_pos (g : Graph) : 0 < g.offsets.size := by
  rcases Nat.eq_zero_or_pos g.offsets.size with h | h
  · have := g.first_offset
    simp [Array.getElem?_eq_none (Nat.le_of_eq h)] at this
  · exact h

theorem size_offsets (g : Graph) : g.offsets.size = g.numNodes + 1 := by
  have := g.size_offsets_pos
  unfold numNodes
  omega

/-- Where the edges of vertex `v` begin. -/
def start (g : Graph) (v : Nat) : Nat :=
  (g.offsets.getD v 0).toNat

/-- The number of edges out of `v`. -/
def degree (g : Graph) (v : Nat) : Nat :=
  g.start (v + 1) - g.start v

/-- The edges out of `v`, in order. -/
def arcs (g : Graph) (v : Nat) : List Arc :=
  let first := g.start v
  let last := g.start (v + 1)
  ((g.targets.extract first last).zipWith Arc.mk (g.weights.extract first last)).toList

/-- The edges out of `v`, unless `v` is no vertex. -/
def arcs? (g : Graph) (v : Nat) : Except GraphError (List Arc) :=
  if v < g.numNodes then .ok (g.arcs v) else .error (.vertexOutOfBounds v g.numNodes)

/-- All edges: those of vertex 0, then those of vertex 1, and so on. The number of a vertex is cut
    to 32 bits before its edges are looked up. -/
def edges (g : Graph) : List Edge :=
  (List.range g.numNodes).flatMap fun v =>
    let source := UInt32.ofNat v
    (g.arcs source.toNat).map (Arc.edgeFrom source)

/-- Whether some edge has a weight other than 1. -/
def isWeighted (g : Graph) : Bool :=
  g.weights.any (· != 1)

/-- The graph without vertices. -/
def empty : Graph where
  offsets := #[0]
  targets := #[]
  weights := #[]
  first_offset := rfl
  last_offset := rfl
  sorted_offsets := by simp
  size_weights := rfl
  target_lt := by simp

instance : Inhabited Graph := ⟨empty⟩

/-! ### Graphs from their arrays -/

/-- The first position whose word is greater than the next one. -/
def firstDescent? : List UInt32 → Option Nat
  | [] => none
  | [_] => none
  | a :: b :: rest => if b < a then some 0 else (firstDescent? (b :: rest)).map (· + 1)

theorem pairwise_of_firstDescent? {ws : List UInt32} (h : firstDescent? ws = none) :
    ws.Pairwise (· ≤ ·) := by
  fun_induction firstDescent? ws with
  | case1 => exact .nil
  | case2 a => simp
  | case3 a b rest hba => simp at h
  | case4 a b rest hba ih =>
    have hs := ih (by simpa using h)
    have hab : a ≤ b := UInt32.not_lt.1 hba
    -- `a` is not above its neighbour, and the neighbour is not above any that follow.
    refine List.pairwise_cons.2 ⟨fun c hc => ?_, hs⟩
    rcases List.mem_cons.1 hc with rfl | hc
    · exact hab
    · exact UInt32.le_trans hab ((List.pairwise_cons.1 hs).1 c hc)

/-- The graph with these offsets, targets and weights. The first fault is reported: of the ends of
    the offsets, the lengths, the order of the offsets, and last of the targets. -/
def ofParts (offsets targets weights : Array UInt32) : Except GraphError Graph :=
  match hf : offsets[0]?, hl : offsets.back? with
  | some first, some last =>
    -- Once the last offset is right, offsets in order cannot point beyond the targets.
    if h0 : first ≠ 0 then .error (.malformed (.firstOffset first.toNat))
    else if hn : last.toNat ≠ targets.size then
      .error (.malformed (.lastOffset last.toNat targets.size))
    else if hw : weights.size ≠ targets.size then
      .error (.malformed (.weightCount weights.size targets.size))
    else
      match hd : firstDescent? offsets.toList with
      | some v =>
        .error (.malformed (.descent v (offsets.getD v 0).toNat (offsets.getD (v + 1) 0).toNat))
      | none =>
        match ht : targets.find? (fun t => offsets.size - 1 ≤ t.toNat) with
        | some t => .error (.vertexOutOfBounds t.toNat (offsets.size - 1))
        | none => .ok {
            offsets, targets, weights
            first_offset := by rw [hf, Decidable.not_not.1 h0]
            last_offset := by rw [hl, Option.map_some, Decidable.not_not.1 hn]
            sorted_offsets := pairwise_of_firstDescent? hd
            size_weights := Decidable.not_not.1 hw
            target_lt := fun t hm => by
              have := Array.find?_eq_none.1 ht t hm
              simp only [decide_eq_true_eq, Nat.not_le] at this
              omega }
  | _, _ => .error (.malformed .noOffset)

end Graph

end SparseGraph
