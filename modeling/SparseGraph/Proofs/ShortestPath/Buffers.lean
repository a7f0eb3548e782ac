import SparseGraph.Proofs.ShortestPath.Histories
import SparseGraph.Proofs.ShortestPath.WholeRuns
import SparseGraph.ShortestPath.Buffers

namespace SparseGraph.ShortestPath

/-!
# Counting by buffers

What a piece writes into its buffer tells what a drain of its items would have done, and merging the
buffers counts it. So it makes no difference into which pieces a bucket is cut.

* `Piece.Tells` — a buffer tells what a sweep has done;
* `Piece.Tells.drain`, `Piece.Tells.merge` — it does so for the items of a piece, and is counted as such;
* `fillBuffers_eq` — all buffers of a bucket together;
* `Progress.drainBuffered?_eq`, `Progress.finishes_iff` — drains and runs with buffers.
-/

variable {g : Graph} {shift : Nat}

/-! ### One piece -/

/-- What a piece has written down tells what the sweep over the same items has done. -/
structure Piece.Tells (p : Piece) (s : Sweep) : Prop where
  distances : p.distances = s.distances
  produced : p.buffer.toList.filterMap Note.produced? = s.produced.toList
  size : p.buffer.size = s.produced.size + s.stale

namespace Piece.Tells

variable {p : Piece} {s : Sweep}

theorem relax (h : p.Tells s) (target candidate : Nat) :
    (p.relax target candidate).Tells (s.relax target candidate) := by
  unfold Piece.relax Sweep.relax
  rw [h.distances]
  cases lowerAt? s.distances target candidate with
  | none => exact h
  | some after =>
    show Tells ⟨after, p.buffer.push _⟩ ⟨after, s.produced.push _, s.stale⟩
    refine ⟨rfl, ?_, ?_⟩
    · rw [Array.toList_push, Array.toList_push, List.filterMap_append, h.produced]
      rfl
    · rw [Array.size_push, Array.size_push, h.size, Nat.add_right_comm]

theorem visit (h : p.Tells s) (g : Graph) (item : Item) : (p.visit g item).Tells (s.visit g item) := by
  have main (distance : Nat) (arcs : List Arc) {p : Piece} {s : Sweep} (h : p.Tells s) :
      (arcs.foldl (fun p a => p.relax a.target.toNat (through distance a.weight.toNat)) p).Tells
        (s.relaxArcs distance arcs) := by
    induction arcs generalizing p s with
    | nil => exact h
    | cons a arcs ih => exact ih (h.relax _ _)
  unfold Piece.visit Sweep.visit
  rw [h.distances]
  by_cases hstale : s.distances.getD item.vertex 0 < item.distance
  · rw [if_pos hstale, if_pos hstale]
    refine ⟨rfl, ?_, ?_⟩
    · rw [Array.toList_push, List.filterMap_append, h.produced]
      exact List.append_nil _
    · rw [Array.size_push, h.size, Nat.add_assoc]
  · rw [if_neg hstale, if_neg hstale]
    exact main _ _ h

/-- **A piece** writes down what a drain of its items does. -/
theorem drain (g : Graph) (distances : Array Nat) (items : List Item) :
    (items.foldl (Piece.visit g) ⟨distances, #[]⟩).Tells (drain g distances items) := by
  have main {p : Piece} {s : Sweep} (h : p.Tells s) :
      (items.foldl (Piece.visit g) p).Tells (items.foldl (Sweep.visit g) s) := by
    induction items generalizing p s with
    | nil => exact h
    | cons item items ih => exact ih (h.visit g item)
  exact main ⟨rfl, rfl, rfl⟩

/-- **Merging a buffer** files what was produced and counts it, and what was stale. -/
theorem merge (h : p.Tells s) (m : Merging shift) :
    m.merge p.buffer =
      ⟨m.pending.extend s.produced.toList,
        ⟨m.tally.rounds, m.tally.relaxations + s.produced.size, m.tally.stale + s.stale⟩⟩ := by
  -- The worklist gets longer by what was produced, so the rest of the buffer was stale.
  have hpushed : (m.pending.extend s.produced.toList).size - m.pending.size = s.produced.size := by
    rw [Worklist.size_extend, Nat.add_sub_cancel_left, Array.length_toList]
  unfold Merging.merge
  rw [h.produced]
  dsimp only
  rw [hpushed, h.size, Nat.add_sub_cancel_left]

end Piece.Tells

/-! ### All pieces -/

/-- **The buffers of all pieces,** merged one after another, are those of one drain of the bucket. -/
theorem fillBuffers_eq (g : Graph) (distances : Array Nat) (pieces : List (List Item))
    (m : Merging shift) :
    (fillBuffers g distances pieces).1 = (drain g distances pieces.flatten).distances ∧
      (fillBuffers g distances pieces).2.foldl Merging.merge m =
        ⟨m.pending.extend (drain g distances pieces.flatten).produced.toList,
          ⟨m.tally.rounds, m.tally.relaxations + (drain g distances pieces.flatten).produced.size,
            m.tally.stale + (drain g distances pieces.flatten).stale⟩⟩ := by
  induction pieces generalizing distances m with
  | nil => exact ⟨rfl, rfl⟩
  | cons items pieces ih =>
    have hpiece := Piece.Tells.drain g distances items
    rw [fillBuffers, List.flatten_cons, drain_append, hpiece.distances]
    obtain ⟨hdistances, hmerged⟩ := ih (drain g distances items).distances
      (m.merge (items.foldl (Piece.visit g) ⟨distances, #[]⟩).buffer)
    refine ⟨hdistances, hmerged.trans ?_⟩
    rw [hpiece.merge]
    simp only [Sweep.after, Array.toList_append, Array.size_append, Worklist.extend,
      List.foldl_append, Nat.add_assoc]

/-- **A drain with buffers** is a drain, whatever pieces are made of the bucket. -/
theorem Progress.drainBuffered?_eq (g : Graph) {cut : List Item → List (List Item)}
    (hcut : ∀ items, (cut items).flatten = items) (p : Progress shift) :
    p.drainBuffered? g cut = (p.drain? g).map Prod.snd := by
  unfold drainBuffered? drain?
  rw [Option.map_map]
  congr 1
  funext ⟨i, items, rest⟩
  obtain ⟨hdistances, hmerged⟩ := fillBuffers_eq g p.distances (cut items.toList)
    (⟨rest, { p.tally with rounds := p.tally.rounds + 1 }⟩ : Merging shift)
  rw [hcut] at hdistances hmerged
  dsimp only [Function.comp_apply]
  rw [hdistances, hmerged]

/-- **Runs with buffers** come to an end, which is the end of the run, whatever pieces are made of the
    buckets. -/
theorem Progress.finishes_iff {cut : Progress shift → List Item → List (List Item)}
    (hcut : ∀ p items, (cut p items).flatten = items) {p r : Progress shift} :
    p.Finishes g cut r ↔ r = p.finish g := by
  constructor
  · intro h
    induction h with
    | done h => exact (finish_of_none (Option.map_eq_none_iff.2 h)).symm
    | drain h _ ih =>
      rw [drainBuffered?_eq g (hcut _)] at h
      obtain ⟨⟨d, q⟩, hdrain, rfl⟩ := Option.map_eq_some_iff.1 h
      rw [finish_of_some hdrain]
      exact ih
  · rintro rfl
    fun_induction finish g p with
    | case1 p h => exact .done (Option.map_eq_none_iff.1 h)
    | case2 p d q h ih =>
      refine .drain ?_ ih
      rw [drainBuffered?_eq g (hcut p), h]
      rfl

end SparseGraph.ShortestPath
