import SparseGraph.Proofs.ShortestPath.DeltaStepping
import SparseGraph.ShortestPath.Dijkstra

namespace SparseGraph.ShortestPath

/-!
# Dijkstra's algorithm finds the distances

An entry of the queue is a waiting item, and handling it is a drain of this item alone, so the invariant
of a search is kept here as well. That the queue is ordered does not matter for what is found.

* `enqueue_perm` — insertion in order adds one entry;
* `Search.Follows` — a search that does what a sweep does;
* `Search.follows_handle` — handling an entry is a drain of its item;
* `Search.next?_eq_some_iff`, `Search.relaxing_next?`, `Search.relaxing_finish` — one entry is taken out,
  and one entry as well as a whole search keep the invariant;
* `relaxing_dijkstra`, `dijkstra_of_le` — the distances from a vertex, and from what is no vertex;
* `distances_of_deltaStep` — delta stepping finds the same.
-/

/-! ### Entries and items -/

/-- The item that waits as an entry. -/
def Entry.item (e : Entry) : Item :=
  ⟨e.node, e.cost⟩

/-- The entry as which an item waits. -/
def Item.entry (i : Item) : Entry :=
  ⟨i.distance, i.vertex⟩

theorem Item.entry_eq_iff {i : Item} {e : Entry} : i.entry = e ↔ i = e.item :=
  ⟨fun h => congrArg Entry.item h, fun h => congrArg Item.entry h⟩

theorem Item.entry_injective : Function.Injective Item.entry :=
  fun _ _ h => Item.entry_eq_iff.1 h

/-- **Insertion in order** adds one entry. -/
theorem enqueue_perm (e : Entry) (queue : List Entry) : (enqueue e queue).Perm (e :: queue) := by
  induction queue with
  | nil => exact .refl _
  | cons first rest ih =>
    rw [enqueue]
    split
    · exact (ih.cons first).trans (.swap e first rest)
    · exact .refl _

namespace Search

variable {g : Graph} {source : Nat} {before s t : Search} {w : Sweep} {e : Entry}

/-- The items that wait in a search. -/
def Waits (s : Search) (i : Item) : Prop :=
  i.entry ∈ s.queue

/-! ### Handling an entry -/

/-- Since `before`, a search has come to the distances of a sweep, and what the sweep has produced
    waits in addition. -/
structure Follows (before s : Search) (w : Sweep) : Prop where
  distances_eq : s.distances = w.distances
  queue_perm : s.queue.Perm (before.queue ++ w.produced.toList.map Item.entry)

theorem follows_refl (s : Search) (stale : Nat) : Follows s s ⟨s.distances, #[], stale⟩ where
  distances_eq := rfl
  queue_perm := .of_eq (List.append_nil _).symm

theorem Follows.waits_iff (h : Follows before s w) (i : Item) :
    s.Waits i ↔ before.Waits i ∨ i ∈ w.produced.toList := by
  unfold Waits
  rw [h.queue_perm.mem_iff, List.mem_append, List.mem_map_of_injective Item.entry_injective]

/-- Both relax an edge alike. -/
theorem Follows.relax (h : Follows before s w) (target candidate : Nat) :
    Follows before (s.relax target candidate) (w.relax target candidate) := by
  unfold Search.relax Sweep.relax
  rw [h.distances_eq]
  cases lowerAt? w.distances target candidate with
  | none => exact h
  | some lowered =>
    refine ⟨rfl, (enqueue_perm _ _).trans ?_⟩
    rw [Array.toList_push, List.map_append, ← List.append_assoc]
    exact (h.queue_perm.cons _).trans (List.perm_append_singleton _ _).symm

/-- Both relax all edges out of a vertex alike. -/
theorem Follows.relaxArcs (h : Follows before s w) (distance : Nat) (arcs : List Arc) :
    Follows before
      (arcs.foldl (fun s a => s.relax a.target.toNat (through distance a.weight.toNat)) s)
      (w.relaxArcs distance arcs) := by
  induction arcs generalizing s w with
  | nil => exact h
  | cons a arcs ih => exact ih (h.relax a.target.toNat (through distance a.weight.toNat))

/-- **Handling an entry is a drain** of its item, unless the entry was put in too early. -/
theorem follows_handle (g : Graph) (hle : s.distances.getD e.node 0 ≤ e.cost) :
    Follows s (s.handle g e) (drain g s.distances [e.item]) := by
  unfold handle
  split
  next hstale =>
    rw [drain_of_stale g hstale]
    exact follows_refl s 1
  next hfresh =>
    -- The edges are relaxed from the cost, which is still the distance of the vertex.
    have hcost : e.cost = s.distances.getD e.node 0 :=
      Nat.le_antisymm (Nat.le_of_not_lt hfresh) hle
    rw [drain_of_fresh g (Nat.le_of_eq hcost), hcost]
    exact (follows_refl s 0).relaxArcs _ (g.arcs e.node)

/-! ### Searches -/

/-- What is taken out is the first entry, which is handled with the others left in the queue. -/
theorem next?_eq_some_iff :
    s.next? g = some (e, t) ↔
      ∃ rest, s.queue = e :: rest ∧ t = handle g ⟨s.distances, rest⟩ e := by
  obtain ⟨distances, queue⟩ := s
  cases queue with
  | nil => simp only [next?, reduceCtorEq, List.nil_eq, false_and, exists_false]
  | cons first rest =>
    simp only [next?, Option.some.injEq, Prod.mk.injEq, List.cons.injEq]
    constructor
    · rintro ⟨rfl, rfl⟩
      exact ⟨rest, ⟨rfl, rfl⟩, rfl⟩
    · rintro ⟨_, ⟨rfl, rfl⟩, rfl⟩
      exact ⟨rfl, rfl⟩

theorem next?_eq_none_iff : s.next? g = none ↔ s.queue = [] := by
  obtain ⟨distances, queue⟩ := s
  cases queue with
  | nil => exact iff_of_true rfl rfl
  | cons first rest => simp only [next?, reduceCtorEq]

/-- The invariant holds at the start. -/
theorem relaxing_start (g : Graph) (source : Nat) :
    Relaxing g source (start g source).distances (start g source).Waits :=
  (Relaxing.initial g source).congr fun i => by
    show _ ↔ i.entry ∈ [_]
    rw [List.mem_singleton, Item.entry_eq_iff]
    rfl

/-- What is taken out has been waiting. -/
theorem waits_of_next? (h : s.next? g = some (e, t)) : s.Waits e.item := by
  obtain ⟨rest, hqueue, _⟩ := next?_eq_some_iff.1 h
  show e ∈ s.queue
  rw [hqueue]
  exact List.mem_cons_self

/-- Taking out an entry is a drain of its item. -/
theorem exists_follows_of_next? (h : s.next? g = some (e, t))
    (inv : Relaxing g source s.distances s.Waits) :
    ∃ rest, s.queue = e :: rest ∧
      Follows ⟨s.distances, rest⟩ t (drain g s.distances [e.item]) := by
  have hle := inv.le_of_waits e.item (waits_of_next? h)
  obtain ⟨rest, hqueue, rfl⟩ := next?_eq_some_iff.1 h
  exact ⟨rest, hqueue, follows_handle g hle⟩

/-- **Taking out an entry keeps the invariant.** -/
theorem relaxing_next? (h : s.next? g = some (e, t))
    (inv : Relaxing g source s.distances s.Waits) : Relaxing g source t.distances t.Waits := by
  obtain ⟨rest, hqueue, hfollows⟩ := exists_follows_of_next? h inv
  have hbefore : Relaxing g source s.distances fun i =>
      i ∈ [e.item] ∨ Waits ⟨s.distances, rest⟩ i :=
    inv.congr fun i => by
      unfold Waits
      rw [hqueue, List.mem_cons, Item.entry_eq_iff, List.mem_singleton]
  rw [hfollows.distances_eq]
  exact ((visits_drain g s.distances [e.item]).relaxing hbefore).congr fun i =>
    (hfollows.waits_iff i).symm

/-- **A search keeps the invariant,** and nothing waits after it. -/
theorem relaxing_finish (inv : Relaxing g source s.distances s.Waits) :
    Relaxing g source (s.finish g).distances fun _ => False := by
  fun_induction finish g s with
  | case1 s h =>
    refine inv.congr fun i => iff_false_intro ?_
    rw [Waits, next?_eq_none_iff.1 h]
    exact List.not_mem_nil
  | case2 s e t h ih => exact ih (relaxing_next? h inv)

end Search

/-! ### The distances from a source -/

variable {g : Graph} {source : Nat}

/-- **The distances from a vertex** satisfy the invariant with nothing waiting. -/
theorem relaxing_dijkstra (h : source < g.numNodes) :
    Relaxing g source (dijkstra g source) fun _ => False := by
  unfold dijkstra
  rw [if_pos h]
  exact Search.relaxing_finish (Search.relaxing_start g source)

/-- From what is no vertex none can be reached. -/
theorem dijkstra_of_le (h : g.numNodes ≤ source) :
    dijkstra g source = Array.replicate g.numNodes infinity := by
  unfold dijkstra initialDistances
  rw [if_neg (Nat.not_lt.2 h)]
  exact Array.setIfInBounds_eq_of_size_le (by rw [Array.size_replicate]; exact h)

/-- **Delta stepping finds the same distances** for every width of the buckets. -/
theorem distances_of_deltaStep {shift : Nat} {r : Result} (h : deltaStep g source shift = .ok r) :
    r.distances = dijkstra g source := by
  by_cases hsource : source < g.numNodes
  · obtain ⟨r', hr', inv⟩ := exists_deltaStep hsource shift
    rw [h] at hr'
    cases hr'
    exact inv.distances_eq (relaxing_dijkstra hsource)
  · unfold deltaStep at h
    rw [if_neg hsource] at h
    cases h

end SparseGraph.ShortestPath
