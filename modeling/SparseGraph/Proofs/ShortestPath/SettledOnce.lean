import SparseGraph.Proofs.ShortestPath.CompleteRuns
import SparseGraph.Proofs.ShortestPath.Dijkstra

namespace SparseGraph.ShortestPath

/-!
# Dijkstra's algorithm settles each vertex once

The queue is in the order of costs, and what an entry puts in costs no less than the entry itself. So
entries are taken out at costs that never decrease, and one whose vertex has not come closer is at the
true distance of its vertex. As a search is also a run to the end, it expands each vertex that is reached
just once, and no more entries are put in than there are arcs, besides the source.

* `Search.Takes` — the loop of a search, with the entries that it takes out;
* `takenEntries`, `settledEntries`, `receivedEntries` — the entries that are taken out, those among them
  whose vertices have not come closer, and those that are put in;
* `InOrder`, `Search.Steady` — the order of the queue, which is kept together with the invariant of a
  search;
* `Search.Steady.pairwise_cost_taken` — costs never decrease;
* `Search.finish_eq_drain`, `Search.items_perm`, `Search.recorded_items`, `Search.filed_perm` — a search as
  one drain;
* `distance_eq_of_mem_expandedItems_dijkstra` — vertices are expanded at their distances;
* `filter_settledEntries`, `getElem?_dijkstra_of_mem_settledEntries`, `length_receivedEntries_le` — which
  entries pass the check, and how many are put in;
* `dijkstra_settles_once` — all of this for the search from a vertex.
-/

/-! ### Entries of a search -/

theorem map_item_entry (items : List Item) : (items.map Item.entry).map Entry.item = items := by
  rw [List.map_map]
  exact List.map_id items

namespace Search

/-- The loop of a search takes out these entries, each at the distances of that time and before all
    others that wait, and ends with the distances `final` when the queue is empty. -/
inductive Takes (g : Graph) : Search → List (Entry × Array Nat) → Array Nat → Prop
  | done (distances : Array Nat) : Takes g ⟨distances, []⟩ [] distances
  | take {distances final : Array Nat} {e : Entry} {rest : List Entry}
      {later : List (Entry × Array Nat)} (first : ∀ f ∈ rest, ¬ f.before e)
      (loop : Takes g (handle g ⟨distances, rest⟩ e) later final) :
      Takes g ⟨distances, e :: rest⟩ ((e, distances) :: later) final

/-- The entries that one entry puts in when it is handled at these distances: what waits afterwards, if
    nothing has waited before. -/
def filed (g : Graph) (t : Entry × Array Nat) : List Entry :=
  (handle g ⟨t.2, []⟩ t.1).queue

/-- The items as which entries waited. -/
def itemsOf (taken : List (Entry × Array Nat)) : List Item :=
  taken.map fun t => t.1.item

end Search

/-- The entries that the search from `source` takes out, each with the distances of that time. -/
def takenEntries (g : Graph) (source : Nat) : List (Entry × Array Nat) :=
  (Search.start g source).taken g

/-- The entries that pass the check: when they are taken out, their vertices have not come closer. -/
def settledEntries (g : Graph) (source : Nat) : List Entry :=
  ((takenEntries g source).filter fun t => t.1.cost ≤ t.2.getD t.1.node 0).map Prod.fst

/-- The entries that the queue receives: the source, and what each entry puts in. -/
def receivedEntries (g : Graph) (source : Nat) : List Entry :=
  ⟨0, source⟩ :: (takenEntries g source).flatMap (Search.filed g)

/-! ### The order of the queue -/

/-- A queue is in order: no entry is before one that stands in front of it. -/
def InOrder (queue : List Entry) : Prop :=
  queue.Pairwise fun a b => ¬ b.before a

namespace Entry

variable {a b c : Entry}

theorem before_iff : a.before b ↔ a.cost < b.cost ∨ a.cost = b.cost ∧ b.node < a.node := by
  simp only [before, Bool.or_eq_true, Bool.and_eq_true, decide_eq_true_eq, beq_iff_eq]

theorem before_asymm (h : a.before b) : ¬ b.before a := by
  rw [before_iff] at h ⊢
  omega

theorem not_before_trans (h₁ : ¬ a.before b) (h₂ : ¬ b.before c) : ¬ a.before c := by
  rw [before_iff] at h₁ h₂ ⊢
  omega

theorem cost_le_of_not_before (h : ¬ b.before a) : a.cost ≤ b.cost := by
  rw [before_iff] at h
  omega

end Entry

/-- **Insertion keeps the order.** -/
theorem inOrder_enqueue {queue : List Entry} (h : InOrder queue) (e : Entry) :
    InOrder (enqueue e queue) := by
  induction queue with
  | nil => exact List.pairwise_singleton _ e
  | cons first rest ih =>
    obtain ⟨hfirst, hrest⟩ := List.pairwise_cons.1 h
    rw [enqueue]
    split
    next hbefore =>
      refine List.pairwise_cons.2 ⟨fun f hf => ?_, ih hrest⟩
      rcases List.mem_cons.1 ((enqueue_perm e rest).mem_iff.1 hf) with rfl | hf
      · exact Entry.before_asymm hbefore
      · exact hfirst f hf
    next hbefore =>
      -- What is not before the first entry is not before the new one either, which it is put in front of.
      refine List.pairwise_cons.2 ⟨fun f hf => ?_, h⟩
      rcases List.mem_cons.1 hf with rfl | hf
      · exact hbefore
      · exact Entry.not_before_trans (hfirst f hf) hbefore

namespace Search

variable {g : Graph} {source bound : Nat} {s t : Search} {e f : Entry} {x : Entry × Array Nat}

theorem inOrder_relax (h : InOrder s.queue) (target candidate : Nat) :
    InOrder (s.relax target candidate).queue := by
  unfold relax
  split
  · exact inOrder_enqueue h _
  · exact h

theorem inOrder_handle (h : InOrder s.queue) (g : Graph) (e : Entry) :
    InOrder (s.handle g e).queue := by
  unfold handle
  split
  next => exact h
  next hfresh =>
    clear hfresh
    generalize g.arcs e.node = arcs
    induction arcs generalizing s with
    | nil => exact h
    | cons a arcs ih => exact ih (inOrder_relax h _ _)

/-- **What is taken out is before all others,** and the others stay in order. -/
theorem inOrder_next? (hs : InOrder s.queue) (h : s.next? g = some (e, t)) :
    (∀ f ∈ s.queue, ¬ f.before e) ∧ InOrder t.queue := by
  obtain ⟨rest, hqueue, rfl⟩ := next?_eq_some_iff.1 h
  rw [hqueue] at hs ⊢
  obtain ⟨hfirst, hrest⟩ := List.pairwise_cons.1 hs
  refine ⟨fun f hf => ?_, inOrder_handle (s := ⟨s.distances, rest⟩) hrest g e⟩
  rcases List.mem_cons.1 hf with rfl | hf
  · exact fun hbefore => Entry.before_asymm hbefore hbefore
  · exact hfirst f hf

/-! ### What holds whenever an entry is taken out -/

/-- In the course of a search from `source` its invariant holds, and the queue is in order. -/
structure Steady (g : Graph) (source : Nat) (s : Search) : Prop where
  relaxing : Relaxing g source s.distances s.Waits
  inOrder : InOrder s.queue

namespace Steady

theorem start (g : Graph) (source : Nat) : Steady g source (start g source) :=
  ⟨relaxing_start g source, List.pairwise_singleton _ _⟩

theorem next? (hs : Steady g source s) (h : s.next? g = some (e, t)) : Steady g source t :=
  ⟨relaxing_next? h hs.relaxing, (inOrder_next? hs.inOrder h).2⟩

/-- **The least cost is taken out.** -/
theorem cost_le_of_mem_queue (hs : Steady g source s) (h : s.next? g = some (e, t))
    (hf : f ∈ s.queue) : e.cost ≤ f.cost :=
  Entry.cost_le_of_not_before ((inOrder_next? hs.inOrder h).1 f hf)

/-- **Nothing that costs less is put in,** since arcs lead no closer. -/
theorem cost_le_of_next? (hs : Steady g source s) (h : s.next? g = some (e, t))
    (hf : f ∈ t.queue) : e.cost ≤ f.cost := by
  obtain ⟨rest, hqueue, hfollows⟩ := exists_follows_of_next? h hs.relaxing
  rcases (hfollows.waits_iff f.item).1 hf with hrest | hproduced
  · refine hs.cost_le_of_mem_queue h ?_
    rw [hqueue]
    exact List.mem_cons_of_mem e hrest
  · obtain ⟨item, hitem, hle⟩ := (visits_drain g s.distances [e.item]).exists_le_of_filed
      hs.relaxing.le_infinity f.item hproduced
    rw [List.mem_singleton.1 hitem] at hle
    exact hle

end Steady

/-! ### The entries of a run -/

theorem taken_of_none (h : s.next? g = none) : s.taken g = [] := by
  rw [taken]
  split
  next => rfl
  next heq => rw [h] at heq; cases heq

theorem taken_of_some (h : s.next? g = some (e, t)) :
    s.taken g = (e, s.distances) :: t.taken g := by
  rw [taken]
  split
  next heq => rw [h] at heq; cases heq
  next heq =>
    rw [h] at heq
    cases heq
    rfl

/-- **The loop ends,** and its entries are those that are listed. -/
theorem takes_taken (g : Graph) (hs : InOrder s.queue) :
    s.Takes g (s.taken g) (s.finish g).distances := by
  fun_induction finish g s with
  | case1 s h =>
    obtain ⟨distances, queue⟩ := s
    obtain rfl : queue = [] := next?_eq_none_iff.1 h
    rw [taken_of_none h]
    exact .done distances
  | case2 s e t h ih =>
    obtain ⟨hfirst, hrest⟩ := inOrder_next? hs h
    have hloop := ih hrest
    rw [taken_of_some h]
    obtain ⟨rest, hqueue, rfl⟩ := next?_eq_some_iff.1 h
    obtain ⟨distances, queue⟩ := s
    obtain rfl : queue = e :: rest := hqueue
    exact .take (fun f hf => hfirst f (List.mem_cons_of_mem e hf)) hloop

namespace Steady

/-- Each entry is taken out where the invariant holds. -/
theorem exists_next?_of_mem_taken (hs : Steady g source s) (hx : x ∈ s.taken g) :
    ∃ before after, before.next? g = some (x.1, after) ∧ before.distances = x.2 ∧
      Steady g source before := by
  fun_induction taken g s with
  | case1 s h => exact absurd hx List.not_mem_nil
  | case2 s e t h ih =>
    rcases List.mem_cons.1 hx with rfl | hx
    · exact ⟨s, t, h, rfl, hs⟩
    · exact ih (hs.next? h) hx

/-- No entry is taken out below the least cost that waits. -/
theorem le_cost_of_mem_taken (hs : Steady g source s) (hbound : ∀ f ∈ s.queue, bound ≤ f.cost)
    (hx : x ∈ s.taken g) : bound ≤ x.1.cost := by
  fun_induction taken g s generalizing bound with
  | case1 s h => exact absurd hx List.not_mem_nil
  | case2 s e t h ih =>
    have hfirst : bound ≤ e.cost := hbound e (waits_of_next? h)
    rcases List.mem_cons.1 hx with rfl | hx
    · exact hfirst
    · have hlater := ih (hs.next? h) (fun f hf => hs.cost_le_of_next? h hf) hx
      exact Nat.le_trans hfirst hlater

/-- **Costs never decrease** from one entry that is taken out to the next. -/
theorem pairwise_cost_taken (hs : Steady g source s) :
    (s.taken g).Pairwise fun x y => x.1.cost ≤ y.1.cost := by
  fun_induction taken g s with
  | case1 s h => exact .nil
  | case2 s e t h ih =>
    have hnext := hs.next? h
    refine List.pairwise_cons.2 ⟨fun y hy => ?_, ih hnext⟩
    exact hnext.le_cost_of_mem_taken (fun f hf => hs.cost_le_of_next? h hf) hy

end Steady

/-! ### A search as one drain -/

/-- The drain of a search is that of its first entry, and then that of the search that is left. -/
theorem drain_taken_of_some (h : s.next? g = some (e, t))
    (inv : Relaxing g source s.distances s.Waits) :
    drain g s.distances (itemsOf (s.taken g)) =
      .after (drain g s.distances [e.item]) (drain g t.distances (itemsOf (t.taken g))) := by
  obtain ⟨_, _, hfollows⟩ := exists_follows_of_next? h inv
  rw [taken_of_some h, hfollows.distances_eq]
  exact drain_cons g s.distances e.item (itemsOf (t.taken g))

/-- **A search is one drain** of the items that it takes out. -/
theorem finish_eq_drain (inv : Relaxing g source s.distances s.Waits) :
    (s.finish g).distances = (drain g s.distances (itemsOf (s.taken g))).distances := by
  fun_induction finish g s with
  | case1 s h =>
    rw [taken_of_none h]
    rfl
  | case2 s e t h ih =>
    rw [ih (relaxing_next? h inv), drain_taken_of_some h inv]
    rfl

/-- **Every item is taken out:** those that wait at first, and those that are produced. -/
theorem items_perm (inv : Relaxing g source s.distances s.Waits) :
    (itemsOf (s.taken g)).Perm (s.queue.map Entry.item ++
      (drain g s.distances (itemsOf (s.taken g))).produced.toList) := by
  fun_induction finish g s with
  | case1 s h =>
    rw [taken_of_none h, next?_eq_none_iff.1 h]
    exact .nil
  | case2 s e t h ih =>
    obtain ⟨rest, hqueue, hfollows⟩ := exists_follows_of_next? h inv
    -- Behind the first entry come those that waited with it, and what it has put in.
    have hwaiting : (t.queue.map Entry.item).Perm
        (rest.map Entry.item ++ (drain g s.distances [e.item]).produced.toList) := by
      have hmap := hfollows.queue_perm.map Entry.item
      rwa [List.map_append, map_item_entry] at hmap
    rw [drain_taken_of_some h inv, taken_of_some h, hqueue]
    simp only [Sweep.after, Array.toList_append, ← List.append_assoc]
    refine .cons e.item ((ih (relaxing_next? h inv)).trans ?_)
    exact hwaiting.append_right _

/-- The visits of that drain find the distances at which the entries are taken out. -/
theorem recorded_items (inv : Relaxing g source s.distances s.Waits) :
    recorded g s.distances (itemsOf (s.taken g)) =
      (s.taken g).map fun t => (t.1.item, t.2.getD t.1.node 0) := by
  fun_induction finish g s with
  | case1 s h =>
    rw [taken_of_none h]
    rfl
  | case2 s e t h ih =>
    obtain ⟨_, _, hfollows⟩ := exists_follows_of_next? h inv
    rw [taken_of_some h, List.map_cons, ← ih (relaxing_next? h inv), hfollows.distances_eq]
    rfl

/-- What the entries put in is what the drain produces. -/
theorem filed_perm (inv : Relaxing g source s.distances s.Waits) :
    ((s.taken g).flatMap (filed g)).Perm
      ((drain g s.distances (itemsOf (s.taken g))).produced.toList.map Item.entry) := by
  fun_induction finish g s with
  | case1 s h =>
    rw [taken_of_none h]
    exact .nil
  | case2 s e t h ih =>
    -- What an entry puts in does not depend on what waits besides.
    have hle : s.distances.getD e.node 0 ≤ e.cost := inv.le_of_waits e.item (waits_of_next? h)
    have hfollows : Follows ⟨s.distances, []⟩ (handle g ⟨s.distances, []⟩ e)
        (drain g s.distances [e.item]) := follows_handle g hle
    rw [drain_taken_of_some h inv, taken_of_some h, List.flatMap_cons]
    simp only [Sweep.after, Array.toList_append, List.map_append]
    exact hfollows.queue_perm.append (ih (relaxing_next? h inv))

end Search

/-! ### The search from a source -/

variable {g : Graph} {source : Nat}

/-- The items that the search from `source` takes out. -/
def dijkstraItems (g : Graph) (source : Nat) : List Item :=
  Search.itemsOf (takenEntries g source)

theorem dijkstra_eq_drainFrom (h : source < g.numNodes) :
    dijkstra g source = (drainFrom g source (dijkstraItems g source)).distances := by
  unfold dijkstra
  rw [if_pos h]
  exact Search.finish_eq_drain (Search.relaxing_start g source)

/-- **A search goes on until nothing waits.** -/
theorem exhausts_dijkstraItems (h : source < g.numNodes) :
    Exhausts g source (dijkstraItems g source) where
  perm := Search.items_perm (Search.relaxing_start g source)
  relaxing := by
    rw [← dijkstra_eq_drainFrom h]
    exact relaxing_dijkstra h

theorem visitsFrom_dijkstraItems (g : Graph) (source : Nat) :
    visitsFrom g source (dijkstraItems g source) =
      (takenEntries g source).map fun t => (t.1.item, t.2.getD t.1.node 0) :=
  Search.recorded_items (Search.relaxing_start g source)

/-- **What is taken out is what the queue has received.** -/
theorem perm_receivedEntries (g : Graph) (source : Nat) :
    ((takenEntries g source).map Prod.fst).Perm (receivedEntries g source) := by
  have inv := Search.relaxing_start g source
  have hitems := (Search.items_perm inv).map Item.entry
  have hentries : (Search.itemsOf (takenEntries g source)).map Item.entry =
      (takenEntries g source).map Prod.fst := by
    rw [Search.itemsOf, List.map_map]
    rfl
  rw [← hentries]
  exact hitems.trans ((Search.filed_perm inv).symm.cons _)

/-- The entries that pass the check are the items that expand their vertices. -/
theorem settledEntries_eq (g : Graph) (source : Nat) :
    settledEntries g source = (expandedItems g source (dijkstraItems g source)).map Item.entry := by
  have hcheck : ∀ t ∈ takenEntries g source,
      decide (t.1.cost ≤ t.2.getD t.1.node 0) = !isStale (t.1.item, t.2.getD t.1.node 0) := by
    intro t _
    rw [isStale, ← decide_not, decide_eq_decide]
    exact Nat.not_lt.symm
  unfold settledEntries expandedItems
  rw [visitsFrom_dijkstraItems, List.filter_map, List.map_map, List.map_map, List.filter_congr hcheck]
  rfl

/-- **Vertices are expanded at their distances.** -/
theorem distance_eq_of_mem_expandedItems_dijkstra (hsource : source < g.numNodes) {i : Item}
    (hi : i ∈ expandedItems g source (dijkstraItems g source)) :
    i.distance = (drainFrom g source (dijkstraItems g source)).distances.getD i.vertex 0 := by
  have hrun := exhausts_dijkstraItems hsource
  have hv := hrun.vertex_lt hsource ((expandedItems_sublist g source _).subset hi)
  obtain ⟨d, hvisit, hfresh⟩ := mem_expandedItems_iff.1 hi
  rw [visitsFrom_dijkstraItems] at hvisit
  obtain ⟨x, hx, hitem⟩ := List.mem_map.1 hvisit
  obtain ⟨rfl, rfl⟩ := Prod.mk.inj hitem
  obtain ⟨before, after, h, hdistances, hsteady⟩ :=
    (Search.Steady.start g source).exists_next?_of_mem_taken hx
  rw [← hdistances] at hfresh
  exact hsteady.relaxing.distance_eq_of_nearest hrun.relaxing hv (Search.waits_of_next? h)
    (fun j hj => hsteady.cost_le_of_mem_queue h hj) hfresh

/-- **A vertex that is reached passes the check once,** at its distance. -/
theorem filter_settledEntries (hsource : source < g.numNodes) {v d : Nat}
    (hd : (dijkstra g source)[v]? = some d) (hfinite : d < infinity) :
    (settledEntries g source).filter (·.node = v) = [⟨d, v⟩] := by
  obtain ⟨hv, _⟩ := Array.getElem?_eq_some_iff.1 hd
  rw [getElem?_eq_some_getD hv, Option.some.injEq, dijkstra_eq_drainFrom hsource] at hd
  subst hd
  rw [(relaxing_dijkstra hsource).size_eq] at hv
  have hone := (exhausts_dijkstraItems hsource).filter_expandedItems
    (fun i => distance_eq_of_mem_expandedItems_dijkstra hsource) hv hfinite
  rw [settledEntries_eq, List.filter_map]
  exact congrArg (List.map Item.entry) hone

/-- **No other vertex passes the check:** an entry that does is at the distance of its vertex, which is
    reached. -/
theorem getElem?_dijkstra_of_mem_settledEntries (hsource : source < g.numNodes) {e : Entry}
    (he : e ∈ settledEntries g source) :
    (dijkstra g source)[e.node]? = some e.cost ∧ e.cost < infinity := by
  have hrun := exhausts_dijkstraItems hsource
  rw [settledEntries_eq] at he
  obtain ⟨i, hi, rfl⟩ := List.mem_map.1 he
  have hmem := (expandedItems_sublist g source _).subset hi
  have hv : i.vertex < (dijkstra g source).size := by
    rw [(relaxing_dijkstra hsource).size_eq]
    exact hrun.vertex_lt hsource hmem
  refine ⟨?_, hrun.distance_lt hmem⟩
  show (dijkstra g source)[i.vertex]? = some i.distance
  rw [getElem?_eq_some_getD hv, dijkstra_eq_drainFrom hsource,
    distance_eq_of_mem_expandedItems_dijkstra hsource hi]

/-- **The queue receives no more entries than there are edges,** besides the source. -/
theorem length_receivedEntries_le (hsource : source < g.numNodes) :
    (receivedEntries g source).length ≤ g.numEdges + 1 := by
  have hle := (exhausts_dijkstraItems hsource).length_le
    (fun i => distance_eq_of_mem_expandedItems_dijkstra hsource) hsource
  rw [dijkstraItems, Search.itemsOf, List.length_map] at hle
  rwa [← (perm_receivedEntries g source).length_eq, List.length_map]

/-- **Each vertex is settled once.** The search from a vertex takes out entries until the queue is empty,
    at costs that never decrease. A vertex at a finite distance passes the check with just one of them,
    which is at that distance, and no other vertex passes it. What is taken out is what the queue has
    received, and that is not more than an entry for each edge besides the source. -/
theorem dijkstra_settles_once (g : Graph) {source : Nat} (hsource : source < g.numNodes) :
    (Search.start g source).Takes g (takenEntries g source) (dijkstra g source) ∧
      ((takenEntries g source).map fun t => t.1.cost).Pairwise (· ≤ ·) ∧
      (∀ v d, (dijkstra g source)[v]? = some d → d < infinity →
        (settledEntries g source).filter (·.node = v) = [⟨d, v⟩]) ∧
      (∀ e ∈ settledEntries g source,
        (dijkstra g source)[e.node]? = some e.cost ∧ e.cost < infinity) ∧
      ((takenEntries g source).map Prod.fst).Perm (receivedEntries g source) ∧
      (receivedEntries g source).length ≤ g.numEdges + 1 := by
  have hstart := Search.Steady.start g source
  refine ⟨?_, List.pairwise_map.2 hstart.pairwise_cost_taken, ?_, ?_, perm_receivedEntries g source,
    length_receivedEntries_le hsource⟩
  · unfold dijkstra
    rw [if_pos hsource]
    exact Search.takes_taken g hstart.inOrder
  · exact fun v d hd hfinite => filter_settledEntries hsource hd hfinite
  · exact fun e he => getElem?_dijkstra_of_mem_settledEntries hsource he

/-- Vertex 1 is put in twice, the second time by way of vertex 2, as arcs of weight 0 lead from vertex 0
    round to itself. The arc to vertex 3 weighs as much as being out of reach, and none leads to vertex 4. -/
def idleRound : Graph where
  offsets := #[0, 2, 4, 5, 5, 5]
  targets := #[1, 2, 0, 3, 1]
  weights := #[3, 0, 0, 4294967295, 0]
  first_offset := rfl
  last_offset := rfl
  sorted_offsets := by decide
  size_weights := rfl
  target_lt := by simp

/-- The general theorem at the idle round: of the two entries for vertex 1 only the one at its distance
    passes the check, and the queue receives four entries in all. -/
theorem dijkstra_settles_once_idleRound :
    0 < idleRound.numNodes ∧
      dijkstra idleRound 0 = #[0, 0, 0, infinity, infinity] ∧
      takenEntries idleRound 0 = [
        (⟨0, 0⟩, #[0, infinity, infinity, infinity, infinity]),
        (⟨0, 2⟩, #[0, 3, 0, infinity, infinity]),
        (⟨0, 1⟩, #[0, 0, 0, infinity, infinity]),
        (⟨3, 1⟩, #[0, 0, 0, infinity, infinity])] ∧
      (settledEntries idleRound 0).filter (·.node = 1) = [⟨0, 1⟩] ∧
      (∀ e ∈ settledEntries idleRound 0, e.cost < infinity) ∧
      (receivedEntries idleRound 0).length = 4 ∧ 4 ≤ idleRound.numEdges + 1 := by
  have hsource : 0 < idleRound.numNodes := by decide
  have hrun : dijkstra idleRound 0 = #[0, 0, 0, infinity, infinity] := by decide +kernel
  have htaken : takenEntries idleRound 0 = [
      (⟨0, 0⟩, #[0, infinity, infinity, infinity, infinity]),
      (⟨0, 2⟩, #[0, 3, 0, infinity, infinity]),
      (⟨0, 1⟩, #[0, 0, 0, infinity, infinity]),
      (⟨3, 1⟩, #[0, 0, 0, infinity, infinity])] := by
    decide +kernel
  obtain ⟨_, _, honce, hfinite, hreceived, hlength⟩ := dijkstra_settles_once idleRound hsource
  have hfour : (receivedEntries idleRound 0).length = 4 := by
    rw [← hreceived.length_eq, htaken]
    rfl
  rw [hfour] at hlength
  have hdistance : (dijkstra idleRound 0)[1]? = some 0 := by
    rw [hrun]
    rfl
  exact ⟨hsource, hrun, htaken, honce 1 0 hdistance (by decide), fun e he => (hfinite e he).2, hfour,
    hlength⟩

end SparseGraph.ShortestPath
