import Mathlib.Data.Finset.Card
import Mathlib.Data.Finset.Range
import SparseGraph.Proofs.Component.Propagation

namespace SparseGraph.Component

/-!
# The number of rounds

A vertex is done once it has announced the least label that it can get. In whatever order a round
visits the vertices, one that held its least label before the round is done after it, and unless all
vertices are done there is one that holds its least label but has not announced it. So every round
but the last makes another vertex done, and there are at most as many of these rounds as vertices.

* `HoldsLeast`, `Done`, `doneVertices` — how far the labels have come;
* `Spreading.done_of_holdsLeast` — the labels stop only when all vertices are done;
* `Round.card_doneVertices_lt` — a round in which something is announced makes a vertex done;
* `Settles.card_add_rounds_le`, `Settles.labels_eq` — the rounds of a run, and what they lead to;
* `two_le_card_doneVertices` — the first round in the order of the vertices makes two of them done;
* `settleIn_rounds_le` — the bounds on both kinds of runs.
-/

variable {g : Graph} {u v : Nat} {marks before after : Array Mark}

/-! ### Vertices that are done -/

/-- No vertex that reaches `v` is less than its label. -/
def HoldsLeast (g : Graph) (marks : Array Mark) (v : Nat) : Prop :=
  ∀ u, g.Reaches u v → labelOf marks v ≤ u

/-- No vertex that reaches `v` is less than the label that `v` announced. -/
def Done (g : Graph) (marks : Array Mark) (v : Nat) : Prop :=
  ∀ u, g.Reaches u v → announcedOf marks v ≤ u

open Classical in
/-- The vertices that have announced their least label. -/
noncomputable def doneVertices (g : Graph) (marks : Array Mark) : Finset Nat :=
  (Finset.range g.numNodes).filter (Done g marks)

theorem mem_doneVertices : v ∈ doneVertices g marks ↔ v < g.numNodes ∧ Done g marks v := by
  classical
  unfold doneVertices
  rw [Finset.mem_filter, Finset.mem_range]

theorem card_doneVertices_le (g : Graph) (marks : Array Mark) :
    (doneVertices g marks).card ≤ g.numNodes := by
  have hsub : doneVertices g marks ⊆ Finset.range g.numNodes :=
    fun v hv => Finset.mem_range.2 (mem_doneVertices.1 hv).1
  calc (doneVertices g marks).card
      ≤ (Finset.range g.numNodes).card := Finset.card_le_card hsub
    _ = g.numNodes := Finset.card_range _

/-- A visit does not take a least label away. -/
theorem HoldsLeast.after_visit {s : Array Mark × Flag} (h : HoldsLeast g s.1 v) (w : Nat) :
    HoldsLeast g (visit g s w).1 v := by
  refine visit_keeps (P := fun marks => HoldsLeast g marks v) ?_ h w
  intro _ _ _ hbefore ann u hu
  exact Nat.le_trans (ann.le v) (hbefore u hu)

/-- What was announced is announced again only if the label has dropped. -/
theorem Done.announcement (hd : Descending before) (h : Done g before v) {w : Nat}
    (ann : Announcement g w before after) : Done g after v := by
  intro u hu
  rw [ann.announced_eq]
  split
  next heq =>
    rw [← heq]
    exact Nat.le_trans (hd.le_announced v) (h u hu)
  next => exact h u hu

/-- A vertex that holds its least label is done once it has been visited. -/
theorem HoldsLeast.done_visit {s : Array Mark × Flag} (h : HoldsLeast g s.1 v) :
    Done g (visit g s v).1 v := by
  intro u hu
  rcases visit_quiet_or_loud g s v with ⟨hquiet, heq⟩ | ⟨_, ann, _⟩
  · rw [heq]
    exact Nat.le_trans hquiet (h u hu)
  · rw [ann.announced_eq, if_pos rfl]
    exact h u hu

/-- Vertices that are done stay done. -/
theorem Done.foldl_visit {s : Array Mark × Flag} (hd : Descending s.1) (h : Done g s.1 v)
    (order : List Nat) : Done g (order.foldl (visit g) s).1 v := by
  refine (foldl_visit_keeps (P := fun marks => Descending marks ∧ Done g marks v) ?_
    ⟨hd, h⟩ order).2
  intro _ _ _ hbefore ann
  exact ⟨hbefore.1.announcement ann, hbefore.2.announcement hbefore.1 ann⟩

/-- **A round finishes** every vertex that held its least label before it. -/
theorem HoldsLeast.done_foldl_visit {s : Array Mark × Flag} {order : List Nat}
    (hd : Descending s.1) (h : HoldsLeast g s.1 v) (hv : v ∈ order) :
    Done g (order.foldl (visit g) s).1 v := by
  induction order generalizing s with
  | nil => exact absurd hv List.not_mem_nil
  | cons w order ih =>
    have hdw : Descending (visit g s w).1 := visit_keeps Descending.announcement hd w
    rcases List.mem_cons.1 hv with rfl | hv
    · exact h.done_visit.foldl_visit hdw order
    · exact ih hdw (h.after_visit w) hv

/-! ### Labels stop only when all vertices are done -/

namespace Spreading

/-- **Least labels get through.** If every vertex that holds its least label is done, then so is
    every vertex. -/
theorem done_of_holdsLeast (h : Spreading g marks)
    (hdone : ∀ v < g.numNodes, HoldsLeast g marks v → Done g marks v) (hv : v < g.numNodes) :
    Done g marks v := by
  obtain ⟨m, ⟨weight, walk⟩, hleast⟩ := Graph.exists_least_reaches g v
  -- Along a walk from the least vertex to `v` everybody's least label is that vertex.
  have hlabel : labelOf marks v ≤ m := by
    clear hv
    induction walk with
    | stay => exact h.le_self m
    | @step w weight a hwalk ha ih =>
      have hw : labelOf marks w ≤ m := ih fun u hu => hleast u (hu.step ha)
      have hbefore : HoldsLeast g marks w :=
        fun u hu => Nat.le_trans hw (hleast u (hu.step ha))
      calc labelOf marks a.target.toNat
          ≤ announcedOf marks w := h.le_of_arc w a ha
        _ ≤ m := hdone w (Graph.lt_of_mem_arcs ha) hbefore m ⟨weight, hwalk⟩
  exact hdone v hv fun u hu => Nat.le_trans hlabel (hleast u hu)

/-- A vertex that is done has nothing to announce. -/
theorem quiet_of_done (h : Spreading g marks) (hv : v < g.numNodes) (hdone : Done g marks v) :
    announcedOf marks v ≤ labelOf marks v :=
  hdone _ (h.reaches v hv)

/-- The labels are determined once all vertices are quiet. -/
theorem labels_eq (h : Spreading g before) (h' : Spreading g after)
    (quiet : ∀ v < g.numNodes, announcedOf before v ≤ labelOf before v)
    (quiet' : ∀ v < g.numNodes, announcedOf after v ≤ labelOf after v) :
    before.map Mark.label = after.map Mark.label := by
  apply Array.ext_getElem?
  intro v
  by_cases hv : v < g.numNodes
  · rw [getElem?_labels (by rw [h.size_eq]; exact hv), getElem?_labels (by rw [h'.size_eq]; exact hv)]
    congr 1
    exact Nat.le_antisymm (h.labelOf_le quiet (h'.reaches v hv))
      (h'.labelOf_le quiet' (h.reaches v hv))
  · have hle := Nat.le_of_not_lt hv
    rw [Array.getElem?_eq_none (by rw [Array.size_map, h.size_eq]; exact hle),
      Array.getElem?_eq_none (by rw [Array.size_map, h'.size_eq]; exact hle)]

end Spreading

/-! ### Rounds in any order -/

/-- **Every round in which something is announced makes a vertex done.** -/
theorem Round.card_doneVertices_lt (h : Round g before after true) (inv : Spreading g before) :
    (doneVertices g before).card < (doneVertices g after).card := by
  obtain ⟨order, hperm, hsweep⟩ := h
  have hmarks : after = (order.foldl (visit g) (before, {})).1 := (congrArg Prod.fst hsweep).symm
  apply Finset.card_lt_card
  refine ⟨fun v hv => ?_, fun hsub => ?_⟩
  · obtain ⟨hlt, hdone⟩ := mem_doneVertices.1 hv
    rw [hmarks]
    exact mem_doneVertices.2 ⟨hlt, hdone.foldl_visit inv.toDescending order⟩
  · -- Otherwise every vertex with its least label would have been done before the round, hence
    -- every vertex, and nothing would have been announced.
    have hdone : ∀ v < g.numNodes, HoldsLeast g before v → Done g before v := by
      intro v hv hleast
      refine (mem_doneVertices.1 (hsub (mem_doneVertices.2 ⟨hv, ?_⟩))).2
      rw [hmarks]
      exact hleast.done_foldl_visit inv.toDescending (hperm.mem_iff.2 (List.mem_range.2 hv))
    have hquiet : ∀ v ∈ order, announcedOf before v ≤ labelOf before v := by
      intro v hv
      have hlt := List.mem_range.1 (hperm.mem_iff.1 hv)
      exact inv.quiet_of_done hlt (inv.done_of_holdsLeast hdone hlt)
    rw [sweepIn, foldl_visit_of_quiet hquiet] at hsweep
    cases hsweep

/-! ### Runs in any order -/

namespace Settles

variable {rounds : Nat}

/-- **A run takes at most one round for each vertex that is not done yet,** and one more. -/
theorem card_add_rounds_le (h : Settles g before rounds after) (inv : Spreading g before) :
    (doneVertices g before).card + rounds ≤ g.numNodes + 1 := by
  induction h with
  | quiet h => exact Nat.add_le_add_right (card_doneVertices_le g _) 1
  | loud h _ ih =>
    have hmore := h.card_doneVertices_lt inv
    have hrest := ih (h.keeps Spreading.announcement inv)
    omega

/-- **Every run leads to the same labels.** -/
theorem labels_eq (hn : g.numNodes ≤ Text.maxWord)
    (h : Settles g (Labelling.new g.numNodes).marks rounds after) :
    after.map Mark.label = (propagate g).labels := by
  have inv := spreading_new hn
  exact (h.keeps Spreading.announcement inv).labels_eq (spreading_settle inv) h.all_quiet
    (quiet_settle g _)

end Settles

/-! ### The order of the vertices -/

/-- After a visit the labels of the targets are not greater than that of the vertex. -/
theorem Spreading.labelOf_target_visit {s : Array Mark × Flag} (inv : Spreading g s.1) {a : Arc}
    (ha : a ∈ g.arcs v) : labelOf (visit g s v).1 a.target.toNat ≤ labelOf s.1 v := by
  rcases visit_quiet_or_loud g s v with ⟨hquiet, heq⟩ | ⟨_, ann, _⟩
  · rw [heq]
    exact Nat.le_trans (inv.le_of_arc v a ha) hquiet
  · exact ann.reached a ha

/-- Besides vertex 0 there is a vertex that has its least label right after vertex 0 was visited. -/
theorem exists_holdsLeast_visit (hn : g.numNodes ≤ Text.maxWord) (htwo : 2 ≤ g.numNodes) :
    ∃ w < g.numNodes, w ≠ 0 ∧
      HoldsLeast g (visit g ((Labelling.new g.numNodes).marks, {}) 0).1 w := by
  have inv := spreading_new hn
  by_cases hone : HoldsLeast g (Labelling.new g.numNodes).marks 1
  · exact ⟨1, htwo, by decide, hone.after_visit (s := ((Labelling.new g.numNodes).marks, {})) 0⟩
  · -- Only vertex 0 is less than 1, so it reaches vertex 1 and an arc leads away from it.
    have hzero : g.Reaches 0 1 := by
      by_contra hnot
      apply hone
      intro u hu
      rw [labelOf_new htwo]
      rcases Nat.eq_zero_or_pos u with rfl | hpos
      · exact absurd hu hnot
      · exact hpos
    obtain ⟨a, ha, hne⟩ := Graph.exists_arc_of_reaches hzero (by decide)
    refine ⟨a.target.toNat, Graph.target_lt_of_mem_arcs ha, hne, fun u _ => ?_⟩
    have hle := inv.labelOf_target_visit (s := ((Labelling.new g.numNodes).marks, {})) ha
    have hself := inv.le_self 0
    exact Nat.le_trans hle (Nat.le_trans hself (Nat.zero_le u))

/-- **The first round** in the order of the vertices makes two vertices done. -/
theorem two_le_card_doneVertices (hn : g.numNodes ≤ Text.maxWord) (htwo : 2 ≤ g.numNodes) :
    2 ≤ (doneVertices g (sweep g (Labelling.new g.numNodes).marks).1).card := by
  have inv := spreading_new hn
  obtain ⟨w, hw, hne, hleast⟩ := exists_holdsLeast_visit hn htwo
  obtain ⟨n, hnodes⟩ : ∃ n, g.numNodes = n + 1 := ⟨g.numNodes - 1, by omega⟩
  have hzero : Done g (sweep g (Labelling.new g.numNodes).marks).1 0 := by
    refine HoldsLeast.done_foldl_visit inv.toDescending ?_ (List.mem_range.2 (by omega))
    exact fun u _ => Nat.le_trans (inv.le_self 0) (Nat.zero_le u)
  have hlater : Done g (sweep g (Labelling.new g.numNodes).marks).1 w := by
    unfold sweep sweepIn
    rw [hnodes] at hw ⊢
    rw [List.range_succ_eq_map, List.foldl_cons, ← hnodes]
    have hd : Descending (visit g ((Labelling.new g.numNodes).marks, {}) 0).1 :=
      visit_keeps (s := ((Labelling.new g.numNodes).marks, {})) Descending.announcement
        inv.toDescending 0
    refine hleast.done_foldl_visit hd (List.mem_map.2 ⟨w - 1, List.mem_range.2 (by omega), ?_⟩)
    omega
  rw [← Finset.card_pair hne.symm]
  apply Finset.card_le_card
  intro x hx
  rcases Finset.mem_insert.1 hx with rfl | hx
  · exact mem_doneVertices.2 ⟨by omega, hzero⟩
  · rw [Finset.mem_singleton.1 hx]
    exact mem_doneVertices.2 ⟨hw, hlater⟩

/-- **Rounds in the order of the vertices:** the first one makes two vertices done, if there are
    two, so that a round less is needed. -/
theorem rounds_propagate_le (hn : g.numNodes ≤ Text.maxWord) :
    (propagate g).rounds ≤ max 2 g.numNodes := by
  have inv := spreading_new hn
  have hall := (settles_settle g (Labelling.new g.numNodes).marks).card_add_rounds_le inv
  show (settle g (Labelling.new g.numNodes).marks).1 ≤ max 2 g.numNodes
  by_cases htwo : 2 ≤ g.numNodes
  · rw [settle]
    split
    next hraised =>
      have hcard := two_le_card_doneVertices hn htwo
      have hrest := (settles_settle g (sweep g (Labelling.new g.numNodes).marks).1).card_add_rounds_le
        (inv.foldl_visit _)
      show (settle g (sweep g (Labelling.new g.numNodes).marks).1).1 + 1 ≤ max 2 g.numNodes
      omega
    next =>
      show 1 ≤ max 2 g.numNodes
      omega
  · omega

/-- **Rounds of a run.** In whatever orders its rounds visit the vertices, a run ends after at most
    one round more than there are vertices, with the same labels. In the order of the vertices there
    are not more rounds than vertices, or two, and so their number fits a word. -/
theorem settleIn_rounds_le (g : Graph) (hn : g.numNodes ≤ Text.maxWord) :
    (∀ orders : Nat → List Nat, (∀ k, (orders k).Perm (List.range g.numNodes)) →
      (settleIn g orders (Labelling.new g.numNodes).marks).1 ≤ g.numNodes + 1 ∧
      (settleIn g orders (Labelling.new g.numNodes).marks).2.map Mark.label =
        (propagate g).labels) ∧
    (propagate g).rounds ≤ max 2 g.numNodes ∧ (propagate g).rounds ≤ Text.maxWord := by
  have hrounds := rounds_propagate_le hn
  refine ⟨fun orders horders => ?_, hrounds, Nat.le_trans hrounds (Nat.max_le.2 ⟨by decide, hn⟩)⟩
  have hsettles := settles_settleIn horders (Labelling.new g.numNodes).marks
  have hbound := hsettles.card_add_rounds_le (spreading_new hn)
  exact ⟨by omega, hsettles.labels_eq hn⟩

/-! ### A chain against its order -/

/-- Each vertex leads to the next. -/
def chain : Graph where
  offsets := #[0, 1, 2, 2]
  targets := #[1, 2]
  weights := #[1, 1]
  first_offset := rfl
  last_offset := rfl
  sorted_offsets := by decide
  size_weights := rfl
  target_lt := by simp

/-- The general theorem at a chain: visited from its end, it takes one round more than it has
    vertices, and leads to the labels that the order of the vertices finds in two rounds. -/
theorem settleIn_rounds_le_chain :
    chain.numNodes ≤ Text.maxWord ∧ [2, 1, 0].Perm (List.range chain.numNodes) ∧
      (settleIn chain (fun _ => [2, 1, 0]) (Labelling.new chain.numNodes).marks).1 = 4 ∧
      (settleIn chain (fun _ => [2, 1, 0]) (Labelling.new chain.numNodes).marks).2.map Mark.label =
        #[0, 0, 0] ∧
      (propagate chain).rounds = 2 ∧ 2 ≤ max 2 chain.numNodes := by
  have hn : chain.numNodes ≤ Text.maxWord := by decide
  have hperm : [2, 1, 0].Perm (List.range chain.numNodes) := by decide
  have hpropagate : propagate chain = ⟨#[0, 0, 0], 2⟩ := by decide +kernel
  obtain ⟨horders, hrounds, _⟩ := settleIn_rounds_le chain hn
  obtain ⟨_, hlabels⟩ := horders (fun _ => [2, 1, 0]) fun _ => hperm
  rw [hpropagate] at hrounds hlabels
  exact ⟨hn, hperm, by decide +kernel, hlabels, by rw [hpropagate], hrounds⟩

end SparseGraph.Component
