import Mathlib.Data.List.Sort
import SparseGraph.Proofs.Graph.Symmetrized
import SparseGraph.Proofs.StableSort

namespace SparseGraph.Graph

/-!
# Pairs and edges in order

Pairs of words are ordered like numbers with two digits, and edges like numbers with three. What is
alike stands together in a sorted list, so that keeping the first of each run leaves a list that
ascends. Such a list is known by its items, which is why comparing two of them compares sets of pairs.

* `pairwise_firsts`, `exists_append_of_mem_firsts` — the firsts of a sorted list ascend, and each stands
  before all that are alike to it;
* `eq_of_ascending` — a list that ascends is known by its items;
* `pairLe_eq_keyLE`, `edgeLe_eq_keyLE` — pairs and edges are ordered by a number;
* `pairwise_arcs_of_ofEdges` — edges in order leave the targets of each vertex in order;
* `isSymmetric_iff` — which graphs are symmetric.
-/

/-! ### First of a run in a sorted list -/

section
variable {α : Type} {alike : α → α → Bool} {key : α → Nat} {a b x : α} {rest l l' : List α}

/-- What is kept behind a run has a greater number than the run. -/
theorem key_lt_of_mem_firstsFrom (halike : ∀ a b, alike a b = true ↔ key a = key b)
    (h : (a :: b :: rest).Pairwise (key · ≤ key ·)) (hab : ¬alike a b = true)
    (hx : x ∈ firstsFrom alike b rest) : key a < key x := by
  obtain ⟨ha, hrest⟩ := List.pairwise_cons.1 h
  have hlt : key a < key b :=
    Nat.lt_of_le_of_ne (ha b List.mem_cons_self) fun heq => hab ((halike a b).2 heq)
  rcases mem_of_mem_firstsFrom hx with rfl | hx
  · exact hlt
  · exact Nat.lt_of_lt_of_le hlt ((List.pairwise_cons.1 hrest).1 x hx)

theorem pairwise_firstsFrom (halike : ∀ a b, alike a b = true ↔ key a = key b)
    (h : (a :: rest).Pairwise (key · ≤ key ·)) :
    (firstsFrom alike a rest).Pairwise (key · < key ·) := by
  induction rest generalizing a with
  | nil => exact List.pairwise_singleton _ a
  | cons b rest ih =>
    rw [firstsFrom]
    split
    next => exact ih (h.sublist ((List.sublist_cons_self b rest).cons_cons a))
    next hab =>
      exact List.pairwise_cons.2
        ⟨fun c hc => key_lt_of_mem_firstsFrom halike h hab hc, ih (List.pairwise_cons.1 h).2⟩

/-- **The firsts of a sorted list ascend,** if being alike means having the same number. -/
theorem pairwise_firsts (halike : ∀ a b, alike a b = true ↔ key a = key b)
    (h : l.Pairwise (key · ≤ key ·)) : (firsts alike l).Pairwise (key · < key ·) := by
  cases l with
  | nil => exact .nil
  | cons a rest => exact pairwise_firstsFrom halike h

theorem exists_append_of_mem_firstsFrom (halike : ∀ a b, alike a b = true ↔ key a = key b)
    (h : (a :: rest).Pairwise (key · ≤ key ·)) (hx : x ∈ firstsFrom alike a rest) :
    ∃ before after, a :: rest = before ++ x :: after ∧ ∀ y ∈ before, key y ≠ key x := by
  induction rest generalizing a with
  | nil =>
    rw [List.mem_singleton.1 hx]
    exact ⟨[], [], rfl, nofun⟩
  | cons b rest ih =>
    rw [firstsFrom] at hx
    split at hx
    next hab =>
      obtain ⟨before, after, heq, hne⟩ :=
        ih (h.sublist ((List.sublist_cons_self b rest).cons_cons a)) hx
      cases before with
      | nil =>
        obtain ⟨rfl, rfl⟩ := List.cons.inj heq
        exact ⟨[], b :: rest, rfl, nofun⟩
      | cons c before =>
        obtain ⟨rfl, rfl⟩ := List.cons.inj heq
        refine ⟨a :: b :: before, after, rfl, fun y hy => ?_⟩
        -- `b` is alike to `a`, which is not alike to `x`.
        rcases List.mem_cons.1 hy with rfl | hy
        · exact hne y List.mem_cons_self
        · rcases List.mem_cons.1 hy with rfl | hy
          · rw [← (halike a y).1 hab]
            exact hne a List.mem_cons_self
          · exact hne y (List.mem_cons_of_mem a hy)
    next hab =>
      rcases List.mem_cons.1 hx with rfl | hrest
      · exact ⟨[], b :: rest, rfl, nofun⟩
      · obtain ⟨before, after, heq, hne⟩ := ih (List.pairwise_cons.1 h).2 hrest
        refine ⟨a :: before, after, congrArg (a :: ·) heq, fun y hy => ?_⟩
        rcases List.mem_cons.1 hy with rfl | hy
        · exact Nat.ne_of_lt (key_lt_of_mem_firstsFrom halike h hab hrest)
        · exact hne y hy

/-- **What is kept of a sorted list comes before all that are alike to it.** -/
theorem exists_append_of_mem_firsts (halike : ∀ a b, alike a b = true ↔ key a = key b)
    (h : l.Pairwise (key · ≤ key ·)) (hx : x ∈ firsts alike l) :
    ∃ before after, l = before ++ x :: after ∧ ∀ y ∈ before, key y ≠ key x := by
  cases l with
  | nil => exact absurd hx List.not_mem_nil
  | cons a rest => exact exists_append_of_mem_firstsFrom halike h hx

/-- An ascending list is known by its items. -/
theorem eq_of_ascending (h : l.Pairwise (key · < key ·)) (h' : l'.Pairwise (key · < key ·))
    (hmem : ∀ x, x ∈ l ↔ x ∈ l') : l = l' := by
  have hnodup {l : List α} (h : l.Pairwise (key · < key ·)) : l.Nodup :=
    h.imp fun hlt heq => Nat.ne_of_lt hlt (congrArg key heq)
  have hperm := (List.perm_ext_iff_of_nodup (hnodup h) (hnodup h')).2 hmem
  exact hperm.eq_of_pairwise (fun _ _ _ _ hab hba => absurd hba (Nat.lt_asymm hab)) h h'

end

/-! ### Order of pairs and edges -/

/-- A pair of words as one number. -/
def pairKey (p : UInt32 × UInt32) : Nat :=
  p.1.toNat * UInt32.size + p.2.toNat

/-- An edge as one number, in which the ends weigh more than the weight. -/
def edgeKey (e : Edge) : Nat :=
  pairKey e.ends * UInt32.size + e.weight.toNat

theorem pairKey_inj {p q : UInt32 × UInt32} : pairKey p = pairKey q ↔ p = q := by
  constructor
  · intro h
    have hp := p.2.toNat_lt
    have hq := q.2.toNat_lt
    unfold pairKey UInt32.size at h
    exact Prod.ext (UInt32.toNat_inj.1 (by omega)) (UInt32.toNat_inj.1 (by omega))
  · exact congrArg pairKey

theorem fst_le_of_pairKey_lt {p q : UInt32 × UInt32} (h : pairKey p < pairKey q) :
    p.1.toNat ≤ q.1.toNat := by
  have hq := q.2.toNat_lt
  unfold pairKey UInt32.size at h
  omega

theorem pairLe_eq_keyLE : pairLe = keyLE pairKey := by
  funext p q
  rw [Bool.eq_iff_iff, keyLE_iff]
  have hp := p.2.toNat_lt
  have hq := q.2.toNat_lt
  simp only [pairLe, pairKey, UInt32.size, Bool.or_eq_true, Bool.and_eq_true, beq_iff_eq,
    decide_eq_true_eq, UInt32.lt_iff_toNat_lt, UInt32.le_iff_toNat_le, ← UInt32.toNat_inj]
  omega

theorem edgeLe_eq_keyLE : edgeLe = keyLE edgeKey := by
  funext e f
  rw [Bool.eq_iff_iff, keyLE_iff]
  have he := e.weight.toNat_lt
  have hf := f.weight.toNat_lt
  unfold edgeLe edgeKey UInt32.size
  split
  next heq =>
    rw [heq, decide_eq_true_eq, UInt32.le_iff_toNat_le]
    omega
  next hne =>
    have hkey : pairKey e.ends ≠ pairKey f.ends := fun heq => hne (pairKey_inj.1 heq)
    rw [pairLe_eq_keyLE, keyLE_iff]
    omega

/-- Edges in order have their ends in order. -/
theorem pairKey_ends_le {e f : Edge} (h : edgeKey e ≤ edgeKey f) :
    pairKey e.ends ≤ pairKey f.ends := by
  have he := e.weight.toNat_lt
  have hf := f.weight.toNat_lt
  unfold edgeKey UInt32.size at h
  omega

/-- **Targets are in the order of the edges,** since the edges out of a vertex differ in their targets
    only. -/
theorem pairwise_arcs_of_ofEdges {r : Nat → Nat → Prop} (hr : ∀ {k a b}, r (k + a) (k + b) → r a b)
    {n : Nat} {edges : List Edge} {g : Graph} (h : ofEdges n edges = .ok g)
    (hedges : edges.Pairwise fun e f => r (pairKey e.ends) (pairKey f.ends)) (v : Nat) :
    (g.arcs v).Pairwise fun a b => r a.target.toNat b.target.toNat := by
  rw [arcs_of_ofEdges h, List.pairwise_map]
  refine (hedges.filter _).imp_of_mem fun {e f} he hf hef => ?_
  have hsource : e.source.toNat = f.source.toNat :=
    (beq_iff_eq.1 (List.mem_filter.1 he).2).trans (beq_iff_eq.1 (List.mem_filter.1 hf).2).symm
  unfold pairKey Edge.ends at hef
  rw [hsource] at hef
  exact hr hef

/-! ### Symmetric graphs -/

section
variable {g : Graph} {p : UInt32 × UInt32} {ps qs : List (UInt32 × UInt32)}

theorem beq_iff_pairKey (p q : UInt32 × UInt32) : (p == q) = true ↔ pairKey p = pairKey q := by
  rw [beq_iff_eq, pairKey_inj]

theorem mem_pairSet : p ∈ pairSet ps ↔ p ∈ ps := by
  unfold pairSet
  constructor
  · exact fun h => List.mem_mergeSort.1 (mem_of_mem_firsts h)
  · intro h
    obtain ⟨q, hq, hkey⟩ := exists_mem_firsts beq_iff_pairKey (List.mem_mergeSort.2 h)
    rwa [← pairKey_inj.1 hkey]

theorem pairwise_pairSet (ps : List (UInt32 × UInt32)) :
    (pairSet ps).Pairwise (pairKey · < pairKey ·) := by
  unfold pairSet
  rw [pairLe_eq_keyLE]
  exact pairwise_firsts beq_iff_pairKey (pairwise_mergeSort_key pairKey ps)

/-- Lists of the same pairs give the same set. -/
theorem pairSet_eq_iff : pairSet ps = pairSet qs ↔ ∀ p, p ∈ ps ↔ p ∈ qs := by
  constructor
  · intro h p
    rw [← mem_pairSet, h, mem_pairSet]
  · intro h
    refine eq_of_ascending (pairwise_pairSet ps) (pairwise_pairSet qs) fun p => ?_
    rw [mem_pairSet, mem_pairSet, h]

theorem mem_map_swap : p ∈ ps.map Prod.swap ↔ p.swap ∈ ps := by
  rw [List.mem_map]
  constructor
  · rintro ⟨q, hq, rfl⟩
    rwa [Prod.swap_swap]
  · exact fun h => ⟨p.swap, h, Prod.swap_swap p⟩

/-- **Symmetric** is a graph in which every edge has an edge back. -/
theorem isSymmetric_iff : g.isSymmetric = true ↔ ∀ p ∈ g.pairs, p.swap ∈ g.pairs := by
  unfold isSymmetric
  rw [beq_iff_eq, pairSet_eq_iff]
  constructor
  · exact fun h p hp => mem_map_swap.1 ((h p).1 hp)
  · refine fun h p => ⟨fun hp => mem_map_swap.2 (h p hp), fun hp => ?_⟩
    have hback := h p.swap (mem_map_swap.1 hp)
    rwa [Prod.swap_swap] at hback

end

end SparseGraph.Graph
