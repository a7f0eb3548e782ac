import SparseGraph.Backlog
import SparseGraph.Proofs.StableSort
import SparseGraph.Proofs.Worklist

namespace SparseGraph

/-!
# A worklist is a backlog in order

A worklist answers like a plain list of its pending items, from which all items of the least number
are taken at once. What ties the two together is that they hold the same items of each number in the
same order; a bucket is then what a number selects from the list.

* `Worklist.items`, `Worklist.drain_eq` — the pending items, bucket by bucket;
* `Worklist.filter_items_push` — filing adds an item behind those of its number;
* `Represents` — a worklist and a backlog with the same items of each number;
* `Represents.serve` — one request is told the same by both, and they stay tied;
* `serve_refines` — so is every sequence of requests, and draining sorts what is pending.
-/

variable {α : Type} {index : α → Nat} {item : α} {w rest : Worklist α index} {b : Backlog α}
  {i : Nat} {taken : Array α}

/-! ### Items, bucket by bucket -/

/-- An item may change places with items of other numbers. -/
theorem filter_cons_eq_concat {l : List α} (h : ∀ a ∈ l, index a ≠ index item) (k : Nat) :
    (item :: l).filter (index · == k) = (l ++ [item]).filter (index · == k) := by
  rw [List.filter_append]
  by_cases hk : index item = k
  · have hnone : l.filter (index · == k) = [] :=
      List.filter_eq_nil_iff.2 fun a ha => by simpa [hk] using h a ha
    simp [hk, hnone]
  · simp [hk]

/-- **Filing adds an item behind those of its number.** -/
theorem filter_fileUnder {buckets : List (Nat × Array α)}
    (hasc : (buckets.map Prod.fst).Pairwise (· < ·))
    (hfiled : ∀ b ∈ buckets, ∀ a ∈ b.2, index a = b.1) (k : Nat) :
    ((fileUnder (index item) item buckets).flatMap (·.2.toList)).filter (index · == k) =
      (buckets.flatMap (·.2.toList) ++ [item]).filter (index · == k) := by
  -- The item is put in front of the first bucket with a greater number, into the bucket of its own
  -- number, or behind the first bucket.
  induction buckets with
  | nil => rfl
  | cons b rest ih =>
    obtain ⟨j, items⟩ := b
    obtain ⟨hfirst, hrest⟩ := List.pairwise_cons.1 hasc
    have hitems : ∀ a ∈ items, index a = j := hfiled _ List.mem_cons_self
    have hfiled' : ∀ b ∈ rest, ∀ a ∈ b.2, index a = b.1 :=
      fun b hb => hfiled b (List.mem_cons_of_mem _ hb)
    have hlater : ∀ a ∈ rest.flatMap (·.2.toList), j < index a := by
      intro a ha
      obtain ⟨b, hb, hab⟩ := List.mem_flatMap.1 ha
      rw [hfiled' b hb a (Array.mem_toList_iff.1 hab)]
      exact hfirst b.1 (List.mem_map_of_mem hb)
    rw [fileUnder]
    split
    next hlt =>
      -- A bucket of its own comes first, and no other item has its number.
      refine filter_cons_eq_concat (l := items.toList ++ rest.flatMap (·.2.toList))
        (fun a ha => ?_) k
      rcases List.mem_append.1 ha with ha | ha
      · rw [hitems a (Array.mem_toList_iff.1 ha)]
        exact Nat.ne_of_gt hlt
      · exact Nat.ne_of_gt (Nat.lt_trans hlt (hlater a ha))
    next =>
      split
      next heq =>
        have hswap : (item :: rest.flatMap (·.2.toList)).filter (index · == k) =
            (rest.flatMap (·.2.toList) ++ [item]).filter (index · == k) :=
          filter_cons_eq_concat (fun a ha => Nat.ne_of_gt (heq ▸ hlater a ha)) k
        rw [List.flatMap_cons, List.flatMap_cons, Array.toList_push, List.append_assoc,
          List.singleton_append, List.append_assoc, List.filter_append, hswap, ← List.filter_append]
      next =>
        rw [List.flatMap_cons, List.flatMap_cons, List.append_assoc, List.filter_append,
          ih hrest hfiled', ← List.filter_append]

namespace Worklist

/-- The pending items, bucket by bucket. -/
def items (w : Worklist α index) : List α :=
  w.buckets.flatMap (·.2.toList)

theorem mem_items {a : α} : a ∈ w.items ↔ a ∈ w := by
  unfold items
  rw [List.mem_flatMap]
  simp only [Array.mem_toList_iff]
  rfl

/-- Items that are filed come behind those of their numbers. -/
theorem filter_items_push (w : Worklist α index) (item : α) (k : Nat) :
    (w.push item).items.filter (index · == k) = (w.items ++ [item]).filter (index · == k) :=
  filter_fileUnder w.ascending w.filed k

/-- A bucket that is taken out holds the first of the pending items. -/
theorem items_of_popMin? (h : w.popMin? = some (i, taken, rest)) :
    w.items = taken.toList ++ rest.items := by
  show w.buckets.flatMap _ = _
  rw [buckets_of_popMin? h]
  rfl

/-- The bucket that is taken out holds the items of its number. -/
theorem index_of_mem_taken (h : w.popMin? = some (i, taken, rest)) :
    ∀ a ∈ taken.toList, index a = i :=
  fun _ ha => index_of_popMin? h (Array.mem_toList_iff.1 ha)

/-- The items that are left have greater numbers. -/
theorem lt_index_of_mem_rest (h : w.popMin? = some (i, taken, rest)) :
    ∀ a ∈ rest.items, i < index a :=
  fun _ ha => lt_index_of_popMin? h (mem_items.1 ha)

/-- No bucket can be taken out only if there is none. -/
theorem buckets_of_popMin?_eq_none (h : w.popMin? = none) : w.buckets = [] := by
  obtain ⟨buckets, size, ha, hn, hf, hs⟩ := w
  cases buckets with
  | nil => rfl
  | cons b tail => cases h

/-- **The pending items are counted.** -/
theorem length_items (w : Worklist α index) : w.items.length = w.size := by
  rw [w.size_eq]
  unfold items itemCount
  induction w.buckets with
  | nil => rfl
  | cons b buckets ih =>
    rw [List.flatMap_cons, List.length_append, ih, List.foldr_cons, Array.length_toList]

/-- The pending items stand in the order of their numbers. -/
theorem pairwise_items (w : Worklist α index) : w.items.Pairwise (index · ≤ index ·) := by
  refine List.pairwise_flatMap.2 ⟨fun b hb => ?_, ?_⟩
  · refine List.pairwise_of_forall_mem_list fun a ha c hc => ?_
    rw [w.filed b hb a (Array.mem_toList_iff.1 ha), w.filed b hb c (Array.mem_toList_iff.1 hc)]
  · refine (List.pairwise_map.1 w.ascending).imp_of_mem fun {b d} hb hd hlt a ha c hc => ?_
    rw [w.filed b hb a (Array.mem_toList_iff.1 ha), w.filed d hd c (Array.mem_toList_iff.1 hc)]
    exact Nat.le_of_lt hlt

/-- **Draining hands out all buckets in order.** -/
theorem drain_eq (w : Worklist α index) : w.drain = w.buckets.map fun b => (b.1, b.2.toList) := by
  fun_induction drain w with
  | case1 w h => rw [buckets_of_popMin?_eq_none h, List.map_nil]
  | case2 w i items rest h ih => rw [ih, buckets_of_popMin? h, List.map_cons]

/-- What is handed out is not empty, and has the number of its bucket. -/
theorem taken_of_serve {request : Request α} {told : List α}
    (h : (w.serve request).1.taken = some (i, told)) : told ≠ [] ∧ ∀ a ∈ told, index a = i := by
  cases request with
  | push item => cases h
  | extend items => cases h
  | popMin =>
    cases hpop : w.popMin? with
    | none =>
      simp only [serve, hpop] at h
      cases h
    | some found =>
      obtain ⟨j, items, rest⟩ := found
      simp only [serve, hpop] at h
      cases h
      have hpos := (size_popMin? hpop).1
      refine ⟨?_, index_of_mem_taken hpop⟩
      rw [← List.length_pos_iff, Array.length_toList]
      exact hpos

end Worklist

/-! ### The same items of each number -/

/-- A worklist and a backlog hold the same items of each number in the same order. -/
def Represents (w : Worklist α index) (b : Backlog α) : Prop :=
  ∀ k, w.items.filter (index · == k) = b.items.filter (index · == k)

namespace Represents

/-- **A worklist keeps its items sorted,** those of one number in the order in which they came. -/
theorem items_eq (h : Represents w b) : w.items = b.items.mergeSort (keyLE index) :=
  eq_mergeSort_of_filter_eq w.pairwise_items h

theorem perm (h : Represents w b) : w.items.Perm b.items := by
  rw [h.items_eq]
  exact List.mergeSort_perm _ _

/-- Both have the same number of pending items. -/
theorem size_eq (h : Represents w b) : w.size = b.items.length := by
  rw [← w.length_items]
  exact h.perm.length_eq

theorem isEmpty_eq (h : Represents w b) : w.isEmpty = b.items.isEmpty := by
  rw [Worklist.isEmpty, h.size_eq]
  cases b.items <;> rfl

theorem push (h : Represents w b) (item : α) : Represents (w.push item) ⟨b.items ++ [item]⟩ := by
  intro k
  rw [w.filter_items_push, List.filter_append, List.filter_append, h k]

theorem extend (h : Represents w b) (added : List α) :
    Represents (w.extend added) ⟨b.items ++ added⟩ := by
  induction added generalizing w b with
  | nil =>
    rw [List.append_nil]
    exact h
  | cons item added ih =>
    have hrest := ih (h.push item)
    rwa [List.append_assoc, List.singleton_append] at hrest

/-- No bucket can be taken out just if nothing is pending. -/
theorem popMin?_eq_none_iff (h : Represents w b) : w.popMin? = none ↔ b.items = [] := by
  rw [← List.length_eq_zero_iff, ← h.size_eq]
  constructor
  · intro hpop
    rw [w.size_eq, Worklist.buckets_of_popMin?_eq_none hpop]
    rfl
  · intro hsize
    rcases hpop : w.popMin? with _ | ⟨i, taken, rest⟩
    · rfl
    · have hpos := Worklist.size_popMin? hpop
      omega

/-- Nothing can be taken from both. -/
theorem popMin?_none (h : Represents w b) (hpop : w.popMin? = none) : b.popMin? index = none := by
  rw [Backlog.popMin?, h.popMin?_eq_none_iff.1 hpop]
  rfl

/-- The bucket that is taken out has the least number. -/
theorem min?_map_index (h : Represents w b) (hpop : w.popMin? = some (i, taken, rest)) :
    (b.items.map index).min? = some i := by
  obtain ⟨hpos, _⟩ := Worklist.size_popMin? hpop
  have hsplit := Worklist.items_of_popMin? hpop
  rw [List.min?_eq_some_iff]
  constructor
  · have hmem : taken[0] ∈ w.items := by
      rw [hsplit]
      exact List.mem_append_left _ (Array.getElem_mem_toList hpos)
    exact List.mem_map.2 ⟨taken[0], h.perm.mem_iff.1 hmem,
      Worklist.index_of_popMin? hpop (Array.getElem_mem hpos)⟩
  · intro j hj
    obtain ⟨a, ha, rfl⟩ := List.mem_map.1 hj
    have hmem := h.perm.mem_iff.2 ha
    rw [hsplit] at hmem
    rcases List.mem_append.1 hmem with hmem | hmem
    · exact Nat.le_of_eq (Worklist.index_of_mem_taken hpop a hmem).symm
    · exact Nat.le_of_lt (Worklist.lt_index_of_mem_rest hpop a hmem)

/-- That number selects the bucket. -/
theorem filter_eq_taken (h : Represents w b) (hpop : w.popMin? = some (i, taken, rest)) :
    b.items.filter (index · == i) = taken.toList := by
  have hfirst := Worklist.index_of_mem_taken hpop
  have hlater := Worklist.lt_index_of_mem_rest hpop
  rw [← h i, Worklist.items_of_popMin? hpop, List.filter_append,
    List.filter_eq_self.2 fun a ha => by simpa using hfirst a ha,
    List.filter_eq_nil_iff.2 fun a ha => by simpa using Nat.ne_of_gt (hlater a ha),
    List.append_nil]

/-- What is left without the bucket stays tied. -/
theorem filter_rest (h : Represents w b) (hpop : w.popMin? = some (i, taken, rest)) :
    Represents rest ⟨b.items.filter (index · != i)⟩ := by
  have hfirst := Worklist.index_of_mem_taken hpop
  have hlater := Worklist.lt_index_of_mem_rest hpop
  intro k
  rw [List.filter_filter]
  by_cases hk : k = i
  · -- No item of the least number is left on either side.
    subst hk
    rw [List.filter_eq_nil_iff.2 fun a ha => by simpa using Nat.ne_of_gt (hlater a ha),
      List.filter_eq_nil_iff.2 fun a _ => by simp]
  · have hsame : ∀ a ∈ b.items, (index a == k && index a != i) = (index a == k) := by
      intro a _
      by_cases ha : index a = k <;> simp [ha, hk]
    have hnone : taken.toList.filter (index · == k) = [] :=
      List.filter_eq_nil_iff.2 fun a ha => by simpa [hfirst a ha] using Ne.symm hk
    rw [List.filter_congr hsame, ← h k, Worklist.items_of_popMin? hpop, List.filter_append, hnone,
      List.nil_append]

/-- **The least bucket is what the least number selects,** and what is left stays tied. -/
theorem popMin?_some (h : Represents w b) (hpop : w.popMin? = some (i, taken, rest)) :
    ∃ b' : Backlog α, b.popMin? index = some (i, taken.toList, b') ∧ Represents rest b' := by
  refine ⟨_, ?_, h.filter_rest hpop⟩
  rw [Backlog.popMin?, h.min?_map_index hpop, Option.map_some, h.filter_eq_taken hpop]

/-- **One request** is told the same by both, and they stay tied. -/
theorem serve (h : Represents w b) (request : Request α) :
    (w.serve request).1 = (b.serve index request).1 ∧
      Represents (w.serve request).2 (b.serve index request).2 := by
  cases request with
  | push item =>
    have hpush := h.push item
    refine ⟨?_, hpush⟩
    simp only [Worklist.serve, Backlog.serve, hpush.size_eq, hpush.isEmpty_eq]
  | extend items =>
    have hextend := h.extend items
    refine ⟨?_, hextend⟩
    simp only [Worklist.serve, Backlog.serve, hextend.size_eq, hextend.isEmpty_eq]
  | popMin =>
    cases hpop : w.popMin? with
    | none =>
      simp only [Worklist.serve, Backlog.serve, hpop, h.popMin?_none hpop, h.size_eq, h.isEmpty_eq,
        true_and]
      exact h
    | some found =>
      obtain ⟨i, items, rest⟩ := found
      obtain ⟨b', hb', hrest⟩ := h.popMin?_some hpop
      simp only [Worklist.serve, Backlog.serve, hpop, hb', hrest.size_eq, hrest.isEmpty_eq,
        true_and]
      exact hrest

/-- **A sequence of requests** is told the same by both, and they stay tied. -/
theorem replies_eq (h : Represents w b) (requests : List (Request α)) :
    replies Worklist.serve w requests = replies (Backlog.serve index) b requests ∧
      Represents (stateAfter Worklist.serve w requests)
        (stateAfter (Backlog.serve index) b requests) := by
  -- Induction on the requests; that both hold the same items of each number is carried along.
  induction requests generalizing w b with
  | nil => exact ⟨rfl, h⟩
  | cons request requests ih =>
    obtain ⟨hreply, hnext⟩ := h.serve request
    obtain ⟨hreplies, hafter⟩ := ih hnext
    exact ⟨congrArg₂ List.cons hreply hreplies, hafter⟩

end Represents

/-! ### Nothing is lost -/

/-- **A request loses nothing:** what was pending and what is filed is handed out or pending. -/
theorem Backlog.perm_serve (index : α → Nat) (b : Backlog α) (request : Request α) :
    (b.items ++ request.filed).Perm
      ((b.serve index request).1.handedOut ++ (b.serve index request).2.items) := by
  cases request with
  | push item => exact .refl _
  | extend items => exact .refl _
  | popMin =>
    rw [Request.filed, List.append_nil]
    unfold Backlog.serve
    dsimp only
    rw [popMin?]
    cases (b.items.map index).min? with
    | none => exact .refl _
    | some least => exact (List.filter_append_perm (index · == least) b.items).symm

/-- Nothing is lost in a sequence of requests. -/
theorem Backlog.perm_replies (index : α → Nat) (b : Backlog α) (requests : List (Request α)) :
    (b.items ++ requests.flatMap Request.filed).Perm
      ((replies (Backlog.serve index) b requests).flatMap Reply.handedOut ++
        (stateAfter (Backlog.serve index) b requests).items) := by
  induction requests generalizing b with
  | nil => rw [List.flatMap_nil, List.append_nil]; exact .refl _
  | cons request requests ih =>
    have hrest := ih (b.serve index request).2
    have hfirst := (b.perm_serve index request).append_right (requests.flatMap Request.filed)
    rw [List.append_assoc, List.append_assoc] at hfirst
    rw [replies, List.flatMap_cons, List.flatMap_cons, List.append_assoc]
    exact hfirst.trans (hrest.append_left _)

/-- What every reply says is said in a sequence of requests. -/
theorem forall_mem_replies {State : Type} {serve : State → Request α → Reply α × State}
    {P : Reply α → Prop} (h : ∀ s request, P (serve s request).1) (s : State)
    (requests : List (Request α)) : ∀ r ∈ replies serve s requests, P r := by
  induction requests generalizing s with
  | nil => exact fun r hr => absurd hr List.not_mem_nil
  | cons request requests ih =>
    intro r hr
    rcases List.mem_cons.1 hr with rfl | hr
    · exact h s request
    · exact ih _ r hr

/-- **A worklist answers like a plain list** of its pending items, from which the items of the least
    number are taken at once in the order in which they came, whatever the sequence of requests; and
    at every point both have the same number of items. No bucket can be taken out just if the list
    is empty, and the count of a worklist is never lowered by more than it is. No item is lost,
    doubled or handed out under another number, and no empty bucket is handed out. Draining hands
    out what is pending in a stable sort, with strictly ascending numbers. -/
theorem serve_refines {α : Type} (index : α → Nat) (requests : List (Request α)) :
    let w := stateAfter Worklist.serve (.empty : Worklist α index) requests
    let b := stateAfter (Backlog.serve index) .empty requests
    replies Worklist.serve (.empty : Worklist α index) requests =
        replies (Backlog.serve index) .empty requests ∧
      w.size = b.items.length ∧ w.isEmpty = b.items.isEmpty ∧
      (w.popMin? = none ↔ b.items = []) ∧
      (∀ i items rest, w.popMin? = some (i, items, rest) →
        items.size ≤ w.size ∧ rest.size = w.size - items.size) ∧
      (requests.flatMap Request.filed).Perm
        ((replies Worklist.serve (.empty : Worklist α index) requests).flatMap Reply.handedOut ++
          w.drain.flatMap Prod.snd) ∧
      (∀ r ∈ replies Worklist.serve (.empty : Worklist α index) requests, ∀ i items,
        r.taken = some (i, items) → items ≠ [] ∧ ∀ a ∈ items, index a = i) ∧
      w.drain.flatMap Prod.snd = b.items.mergeSort (fun a c => index a ≤ index c) ∧
      (w.drain.map Prod.fst).Pairwise (· < ·) ∧
      ∀ bucket ∈ w.drain, bucket.2 ≠ [] ∧ ∀ a ∈ bucket.2, index a = bucket.1 := by
  intro w b
  have hempty : Represents (.empty : Worklist α index) .empty := fun _ => rfl
  obtain ⟨hreplies, hafter⟩ := hempty.replies_eq requests
  have hdrained : w.drain.flatMap Prod.snd = w.items := by
    rw [w.drain_eq, List.flatMap_map]
    rfl
  refine ⟨hreplies, hafter.size_eq, hafter.isEmpty_eq, hafter.popMin?_eq_none_iff,
    fun i items rest hpop => ?_, ?_, ?_, ?_, ?_, fun bucket hbucket => ?_⟩
  · obtain ⟨_, hsize⟩ := Worklist.size_popMin? hpop
    omega
  · rw [hreplies, hdrained]
    exact (Backlog.perm_replies index .empty requests).trans (hafter.perm.symm.append_left _)
  · exact forall_mem_replies (fun w request i items h => Worklist.taken_of_serve h) _ _
  · rw [hdrained]
    exact hafter.items_eq
  · rw [w.drain_eq, List.map_map]
    exact w.ascending
  · rw [w.drain_eq] at hbucket
    obtain ⟨found, hfound, rfl⟩ := List.mem_map.1 hbucket
    refine ⟨fun hnil => w.nonempty found hfound (Array.toList_eq_nil_iff.1 hnil), fun a ha => ?_⟩
    exact w.filed found hfound a (Array.mem_toList_iff.1 ha)

end SparseGraph
