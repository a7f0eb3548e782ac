import SparseGraph.Proofs.Cell
import SparseGraph.Proofs.ShortestPath.Distances
import SparseGraph.ShortestPath.DeltaStepping

namespace SparseGraph.ShortestPath

/-!
# Relaxation

What relaxing edges does to distances, and why it finds the least weights of walks, whichever items
are taken and in whatever order.

* `Lowering` — distances dropped, and each vertex whose distance dropped was filed with it;
* `Relaxation` — a lowering along arcs, after which none of them leads closer;
* `Sweep.exists_relaxation` — relaxing the arcs of a vertex is one;
* `Relaxing` — the invariant of a search: distances are weights of walks, and an arc that would
  still bring its target closer leaves a vertex that waits;
* `Visit`, `Visits` — what a waiting item does, and what several do one after another; they keep
  the invariant (`Visits.relaxing`) and file nothing that is closer (`Visits.exists_le_of_filed`);
* `Relaxing.le_of_walk`, `Relaxing.getD_eq_of_near`, `Relaxing.isDistance` — far from all waiting
  items, and everywhere once none waits, the distances are the true ones;
* `Relaxing.distance_eq_of_nearest` — so the nearest item that waits is at the true distance.
-/

/-! ### Lowering distances -/

/-- From `before` to `after` the distances dropped, and `filed` are the vertices that came closer,
    each with a distance it came to. -/
structure Lowering (before after : Array Nat) (filed : List Item) : Prop where
  size_eq : after.size = before.size
  le : ∀ v, after.getD v 0 ≤ before.getD v 0
  /-- A vertex that came closer is filed with the distance it has come to. -/
  filed_of_ne : ∀ v, after.getD v 0 = before.getD v 0 ∨ ⟨v, after.getD v 0⟩ ∈ filed
  lt_of_filed : ∀ i ∈ filed, i.distance < before.getD i.vertex 0
  le_of_filed : ∀ i ∈ filed, after.getD i.vertex 0 ≤ i.distance

namespace Lowering

variable {before between after : Array Nat} {first second : List Item}

theorem refl (distances : Array Nat) : Lowering distances distances [] where
  size_eq := rfl
  le _ := Nat.le_refl _
  filed_of_ne _ := .inl rfl
  lt_of_filed := by simp
  le_of_filed := by simp

/-- Lowerings follow one another, and what they file comes together. -/
theorem trans (h₁ : Lowering before between first) (h₂ : Lowering between after second) :
    Lowering before after (first ++ second) where
  size_eq := h₂.size_eq.trans h₁.size_eq
  le v := Nat.le_trans (h₂.le v) (h₁.le v)
  filed_of_ne v := by
    rcases h₂.filed_of_ne v with h | h
    · rw [h]
      exact (h₁.filed_of_ne v).imp_right (List.mem_append_left second)
    · exact .inr (List.mem_append_right first h)
  lt_of_filed i hi := by
    rcases List.mem_append.1 hi with hi | hi
    · exact h₁.lt_of_filed i hi
    · exact Nat.lt_of_lt_of_le (h₂.lt_of_filed i hi) (h₁.le i.vertex)
  le_of_filed i hi := by
    rcases List.mem_append.1 hi with hi | hi
    · exact Nat.le_trans (h₂.le i.vertex) (h₁.le_of_filed i hi)
    · exact h₂.le_of_filed i hi

/-- Lowering one cell files its vertex. -/
theorem of_lowerAt? {target candidate : Nat} (h : lowerAt? before target candidate = some after) :
    Lowering before after [⟨target, candidate⟩] where
  size_eq := size_of_lowerAt? h
  le v := by
    have hlt := (lowerAt?_eq_some_iff.1 h).1
    rw [getD_of_lowerAt? h]
    split
    next hv => rw [hv]; exact Nat.le_of_lt hlt
    next => exact Nat.le_refl _
  filed_of_ne v := by
    rw [getD_of_lowerAt? h]
    by_cases hv : v = target
    · rw [if_pos hv, hv]
      exact .inr List.mem_cons_self
    · rw [if_neg hv]
      exact .inl rfl
  lt_of_filed i hi := by
    rw [List.mem_singleton] at hi
    subst hi
    exact (lowerAt?_eq_some_iff.1 h).1
  le_of_filed i hi := by
    rw [List.mem_singleton] at hi
    subst hi
    rw [getD_of_lowerAt? h, if_pos rfl]

/-- **One relaxation.** The target is brought to the minimum, and filed if that changes its
    distance. -/
theorem of_relax (s : Sweep) (target candidate : Nat) :
    ∃ filed, Lowering s.distances (s.relax target candidate).distances filed ∧
      (s.relax target candidate).produced.toList = s.produced.toList ++ filed ∧
      (s.relax target candidate).distances.getD target 0 ≤ candidate ∧
      ∀ i ∈ filed, i = ⟨target, candidate⟩ := by
  unfold Sweep.relax
  split
  next after h =>
    refine ⟨[⟨target, candidate⟩], .of_lowerAt? h, Array.toList_push, ?_, ?_⟩
    · rw [getD_of_lowerAt? h, if_pos rfl]
    · exact fun i hi => List.mem_singleton.1 hi
  next h => exact ⟨[], .refl _, (List.append_nil _).symm, lowerAt?_eq_none_iff.1 h, by simp⟩

end Lowering

/-! ### Relaxing arcs -/

/-- A lowering along arcs out of a vertex at a distance: none of the arcs leads closer any more, and
    what is filed is a target at its distance through an arc. -/
structure Relaxation (distance : Nat) (arcs : List Arc) (before after : Array Nat)
    (filed : List Item) : Prop extends Lowering before after filed where
  reached : ∀ a ∈ arcs, after.getD a.target.toNat 0 ≤ through distance a.weight.toNat
  along : ∀ i ∈ filed, ∃ a ∈ arcs, i = ⟨a.target.toNat, through distance a.weight.toNat⟩

namespace Relaxation

variable {distance : Nat} {before between after : Array Nat} {first second : List Item}

theorem nil (distance : Nat) (distances : Array Nat) :
    Relaxation distance [] distances distances [] where
  toLowering := .refl distances
  reached := by simp
  along := by simp

/-- One arc is relaxed, and then the others. -/
theorem cons {a : Arc} {arcs : List Arc} (h₁ : Lowering before between first)
    (reached : between.getD a.target.toNat 0 ≤ through distance a.weight.toNat)
    (along : ∀ i ∈ first, i = ⟨a.target.toNat, through distance a.weight.toNat⟩)
    (h₂ : Relaxation distance arcs between after second) :
    Relaxation distance (a :: arcs) before after (first ++ second) where
  toLowering := h₁.trans h₂.toLowering
  reached b hb := by
    rcases List.mem_cons.1 hb with rfl | hb
    · -- The arcs that follow do not raise what the first one has lowered.
      exact Nat.le_trans (h₂.le _) reached
    · exact h₂.reached b hb
  along i hi := by
    rcases List.mem_append.1 hi with hi | hi
    · exact ⟨a, List.mem_cons_self, along i hi⟩
    · obtain ⟨b, hb, hib⟩ := h₂.along i hi
      exact ⟨b, List.mem_cons_of_mem a hb, hib⟩

end Relaxation

/-- **Relaxing arcs** in the course of a drain: what is filed is produced behind what had been
    produced before. -/
theorem Sweep.exists_relaxation (s : Sweep) (distance : Nat) (arcs : List Arc) :
    ∃ filed, Relaxation distance arcs s.distances (s.relaxArcs distance arcs).distances filed ∧
      (s.relaxArcs distance arcs).produced.toList = s.produced.toList ++ filed := by
  induction arcs generalizing s with
  | nil => exact ⟨[], .nil distance s.distances, (List.append_nil _).symm⟩
  | cons a arcs ih =>
    obtain ⟨first, hlow, hprod₁, hreached, halong⟩ :=
      Lowering.of_relax s a.target.toNat (through distance a.weight.toNat)
    obtain ⟨second, hrest, hprod₂⟩ := ih (s.relax a.target.toNat (through distance a.weight.toNat))
    refine ⟨first ++ second, .cons hlow hreached halong hrest, ?_⟩
    show (relaxArcs _ distance arcs).produced.toList = _
    rw [hprod₂, hprod₁, List.append_assoc]

/-! ### The invariant of a search -/

/-- The invariant of a search for the distances from `source`, in which the items of `waits` wait:
    distances are weights of walks, and each arc that leads closer leaves a vertex that waits with
    the distance it has. -/
structure Relaxing (g : Graph) (source : Nat) (distances : Array Nat) (waits : Item → Prop) :
    Prop where
  size_eq : distances.size = g.numNodes
  source_eq : distances.getD source 0 = 0
  le_infinity : ∀ v, distances.getD v 0 ≤ infinity
  walk : ∀ v < g.numNodes, distances.getD v 0 < infinity → g.Walk source v (distances.getD v 0)
  /-- Distances only drop, so an item is never filed below the distance of its vertex. -/
  le_of_waits : ∀ i, waits i → distances.getD i.vertex 0 ≤ i.distance
  waits_or_le : ∀ v, ∀ a ∈ g.arcs v, waits ⟨v, distances.getD v 0⟩ ∨
    distances.getD a.target.toNat 0 ≤ through (distances.getD v 0) a.weight.toNat

namespace Relaxing

variable {g : Graph} {source : Nat} {distances after : Array Nat} {waits waits' : Item → Prop}
  {item : Item} {filed : List Item}

/-- In the beginning only the source is reached, and it waits. -/
theorem initial (g : Graph) (source : Nat) :
    Relaxing g source (initialDistances g.numNodes source) (· = ⟨source, 0⟩) where
  size_eq := size_initialDistances _ _
  source_eq := getD_initialDistances_source _ _
  le_infinity := getD_initialDistances_le _ _
  walk v hv hlt := by
    by_cases h : v = source
    · rw [h, getD_initialDistances_source]
      exact .stay
    · rw [getD_initialDistances_of_ne hv h] at hlt
      exact absurd hlt (Nat.lt_irrefl _)
  le_of_waits i hi := by
    rw [hi, getD_initialDistances_source]
  waits_or_le v a ha := by
    by_cases h : v = source
    · rw [h, getD_initialDistances_source]
      exact .inl rfl
    · -- A vertex out of reach brings nothing closer.
      rw [getD_initialDistances_of_ne (Graph.lt_of_mem_arcs ha) h]
      exact .inr (Nat.le_trans (getD_initialDistances_le _ _ _)
        (le_through (Nat.le_refl _) _))

/-- It does not matter how the waiting items are told. -/
theorem congr (h : Relaxing g source distances waits) (hw : ∀ i, waits i ↔ waits' i) :
    Relaxing g source distances waits' := by
  have heq : waits = waits' := funext fun i => propext (hw i)
  exact heq ▸ h

/-- **A stale item may be dropped.** Its vertex has come closer, so it is not the item that the
    arcs of the vertex wait for. -/
theorem drop (h : Relaxing g source distances fun i => i = item ∨ waits i)
    (stale : distances.getD item.vertex 0 < item.distance) :
    Relaxing g source distances waits where
  size_eq := h.size_eq
  source_eq := h.source_eq
  le_infinity := h.le_infinity
  walk := h.walk
  le_of_waits i hi := h.le_of_waits i (.inr hi)
  waits_or_le v a ha := by
    rcases h.waits_or_le v a ha with (heq | hw) | hle
    · rw [← heq] at stale
      exact absurd stale (Nat.lt_irrefl _)
    · exact .inl hw
    · exact .inr hle

/-- **An item is taken and the arcs of its vertex are relaxed,** in any order. The vertices that
    come closer wait from then on. -/
theorem relax {arcs : List Arc} (h : Relaxing g source distances fun i => i = item ∨ waits i)
    (order : ∀ a, a ∈ arcs ↔ a ∈ g.arcs item.vertex)
    (low : Relaxation (distances.getD item.vertex 0) arcs distances after filed) :
    Relaxing g source after fun i => waits i ∨ i ∈ filed where
  size_eq := low.size_eq.trans h.size_eq
  source_eq := by
    have hle := low.le source
    rw [h.source_eq] at hle
    exact Nat.le_zero.1 hle
  le_infinity v := Nat.le_trans (low.le v) (h.le_infinity v)
  walk v hv hlt := by
    rcases low.filed_of_ne v with heq | hmem
    · rw [heq] at hlt ⊢
      exact h.walk v hv hlt
    · -- The walk to the item goes on along the arc.
      obtain ⟨a, ha, hi⟩ := low.along _ hmem
      obtain ⟨htarget, hdist⟩ := Item.mk.inj hi
      rw [hdist] at hlt ⊢
      rw [through_eq_add hlt, htarget]
      have harc := (order a).1 ha
      refine .step (h.walk _ (Graph.lt_of_mem_arcs harc) ?_) harc
      exact Nat.lt_of_le_of_lt (le_through (h.le_infinity _) _) hlt
  le_of_waits i hi := by
    rcases hi with hi | hi
    · exact Nat.le_trans (low.le _) (h.le_of_waits i (.inr hi))
    · exact low.le_of_filed i hi
  waits_or_le v a ha := by
    rcases low.filed_of_ne v with heq | hmem
    · rw [heq]
      rcases h.waits_or_le v a ha with (hi | hw) | hle
      · -- The arcs of the item itself have just been relaxed.
        rw [← hi] at order low
        exact .inr (low.reached a ((order a).2 ha))
      · exact .inl (.inl hw)
      · exact .inr (Nat.le_trans (low.le _) hle)
    · exact .inl (.inr hmem)

/-! ### Distances that are settled -/

/-- **Settled distances.** If no item waits at a distance that is `near`, and what is nearer is
    `near` too, then no walk is shorter than the distance of a vertex that it leads to, as long as
    its own weight is `near`. -/
theorem le_of_walk (h : Relaxing g source distances waits) (near : Nat → Prop)
    (down : ∀ {c d}, c ≤ d → near d → near c) (idle : ∀ i, waits i → ¬ near i.distance)
    {v weight : Nat} (walk : g.Walk source v weight) (hnear : near (min infinity weight)) :
    distances.getD v 0 ≤ min infinity weight := by
  induction walk with
  | stay =>
    rw [h.source_eq]
    exact Nat.zero_le _
  | @step v weight a _ ha ih =>
    rw [← through_min] at hnear ⊢
    -- What lies before the arc is near, so its vertex is right and does not wait.
    have hbefore : near (min infinity weight) :=
      down (le_through (Nat.min_le_left _ _) _) hnear
    have hle := ih hbefore
    rcases h.waits_or_le v a ha with hw | hstep
    · exact absurd (down hle hbefore) (idle _ hw)
    · exact Nat.le_trans hstep (through_mono hle _)

/-- A distance that no walk undercuts is the true one. -/
theorem isDistance_of_le (h : Relaxing g source distances waits) {v : Nat} (hv : v < g.numNodes)
    (hle : ∀ weight, g.Walk source v weight → distances.getD v 0 ≤ weight) :
    IsDistance g source v (distances.getD v 0) :=
  isDistance_iff.2 ⟨h.le_infinity v, h.walk v hv, hle⟩

/-- **The end of a search.** Once nothing waits, every vertex has its distance. -/
theorem isDistance (h : Relaxing g source distances waits) (idle : ∀ i, ¬ waits i) {v : Nat}
    (hv : v < g.numNodes) : IsDistance g source v (distances.getD v 0) := by
  apply h.isDistance_of_le hv
  intro weight walk
  have hle := h.le_of_walk (fun _ => True) (fun _ _ => trivial)
    (fun i hi => absurd hi (idle i)) walk trivial
  exact Nat.le_trans hle (Nat.min_le_right _ _)

/-- **Searches agree.** Wherever two searches have gone, they end with the same distances. -/
theorem distances_eq {first second : Array Nat} (h₁ : Relaxing g source first fun _ => False)
    (h₂ : Relaxing g source second fun _ => False) : first = second := by
  have hsize : first.size = second.size := h₁.size_eq.trans h₂.size_eq.symm
  apply Array.ext hsize
  intro v hv₁ hv₂
  have hv : v < g.numNodes := h₁.size_eq ▸ hv₁
  have heq := (h₁.isDistance (fun _ => not_false) hv).unique (h₂.isDistance (fun _ => not_false) hv)
  rw [Array.getD_eq_getD_getElem?, Array.getD_eq_getD_getElem?, Array.getElem?_eq_getElem hv₁,
    Array.getElem?_eq_getElem hv₂] at heq
  exact heq

/-- No distance is ever below the true one. -/
theorem le_getD (h : Relaxing g source distances waits) {v d : Nat} (hv : v < g.numNodes)
    (hd : IsDistance g source v d) : d ≤ distances.getD v 0 := by
  obtain ⟨hle, _, hleast⟩ := isDistance_iff.1 hd
  by_cases hlt : distances.getD v 0 < infinity
  · exact hleast _ (h.walk v hv hlt)
  · omega

/-- A true distance stands at its vertex as soon as it is `near`, if no item waits at a distance that
    is. -/
theorem getD_eq_of_near (h : Relaxing g source distances waits) (near : Nat → Prop)
    (down : ∀ {c d}, c ≤ d → near d → near c) (idle : ∀ i, waits i → ¬ near i.distance) {v d : Nat}
    (hv : v < g.numNodes) (hd : IsDistance g source v d) (hnear : near d) :
    distances.getD v 0 = d := by
  apply Nat.le_antisymm _ (h.le_getD hv hd)
  obtain ⟨hle, hwalk, _⟩ := isDistance_iff.1 hd
  by_cases hlt : d < infinity
  · have hmin : min infinity d = d := Nat.min_eq_right hle
    have hsettled := h.le_of_walk near down idle (hwalk hlt) (by rw [hmin]; exact hnear)
    rw [hmin] at hsettled
    exact hsettled
  · exact Nat.le_trans (h.le_infinity v) (Nat.le_of_not_lt hlt)

/-- **The nearest item that waits is at the final distance of its vertex,** unless it is stale. -/
theorem distance_eq_of_nearest {final : Array Nat} (h : Relaxing g source distances waits)
    (hend : Relaxing g source final fun _ => False) (hv : item.vertex < g.numNodes)
    (hwaits : waits item) (nearest : ∀ i, waits i → item.distance ≤ i.distance)
    (fresh : item.distance ≤ distances.getD item.vertex 0) :
    item.distance = final.getD item.vertex 0 := by
  have hfinal := hend.isDistance (fun _ => not_false) hv
  apply Nat.le_antisymm
  · -- No item waits nearer, so a smaller distance would stand at the vertex already.
    by_contra hlt
    have hsettled := h.getD_eq_of_near (· < item.distance) Nat.lt_of_le_of_lt
      (fun i hi => Nat.not_lt.2 (nearest i hi)) hv hfinal (Nat.lt_of_not_le hlt)
    omega
  · exact Nat.le_trans (h.le_getD hv hfinal) (h.le_of_waits item hwaits)

end Relaxing

/-! ### Visits -/

/-- What one waiting item does to the distances, and what it files: nothing if it is stale;
    otherwise the arcs of its vertex are relaxed in some order from the present distance. -/
inductive Visit (g : Graph) (item : Item) (before : Array Nat) : Array Nat → List Item → Prop
  | stale (h : before.getD item.vertex 0 < item.distance) : Visit g item before before []
  | fresh {after : Array Nat} {filed : List Item} {arcs : List Arc}
      (h : item.distance ≤ before.getD item.vertex 0) (order : arcs.Perm (g.arcs item.vertex))
      (relaxation : Relaxation (before.getD item.vertex 0) arcs before after filed) :
      Visit g item before after filed

/-- What several items do one after another. -/
inductive Visits (g : Graph) : List Item → Array Nat → Array Nat → List Item → Prop
  | nil (distances : Array Nat) : Visits g [] distances distances []
  | cons {item : Item} {items first second : List Item} {before between after : Array Nat}
      (visit : Visit g item before between first) (rest : Visits g items between after second) :
      Visits g (item :: items) before after (first ++ second)

variable {g : Graph} {source : Nat} {before after : Array Nat} {waits : Item → Prop}
  {item : Item} {items filed : List Item}

theorem Visit.lowering (h : Visit g item before after filed) : Lowering before after filed := by
  cases h with
  | stale _ => exact .refl before
  | fresh _ _ relaxation => exact relaxation.toLowering

/-- **A visit keeps the invariant:** its item no longer waits, and what it files does. -/
theorem Visit.relaxing (h : Visit g item before after filed)
    (inv : Relaxing g source before fun i => i = item ∨ waits i) :
    Relaxing g source after fun i => waits i ∨ i ∈ filed := by
  cases h with
  | stale hstale =>
    refine (inv.drop hstale).congr fun i => ?_
    simp only [List.not_mem_nil, or_false]
  | fresh _ order relaxation => exact inv.relax (fun a => order.mem_iff) relaxation

/-- What a visit files is not closer than its item. -/
theorem Visit.le_of_filed (h : Visit g item before after filed)
    (hle : ∀ v, before.getD v 0 ≤ infinity) : ∀ i ∈ filed, item.distance ≤ i.distance := by
  cases h with
  | stale _ => exact fun i hi => absurd hi List.not_mem_nil
  | fresh hfresh _ relaxation =>
    intro i hi
    obtain ⟨a, _, rfl⟩ := relaxation.along i hi
    exact Nat.le_trans hfresh (le_through (hle _) _)

theorem Visits.lowering (h : Visits g items before after filed) : Lowering before after filed := by
  induction h with
  | nil distances => exact .refl distances
  | cons visit _ ih => exact visit.lowering.trans ih

/-- **Visits keep the invariant.** -/
theorem Visits.relaxing (h : Visits g items before after filed)
    (inv : Relaxing g source before fun i => i ∈ items ∨ waits i) :
    Relaxing g source after fun i => waits i ∨ i ∈ filed := by
  induction h generalizing waits with
  | nil distances =>
    refine inv.congr fun i => ?_
    simp only [List.not_mem_nil, false_or, or_false]
  | @cons item items first second before between after visit _ ih =>
    -- While the first item is visited the other items wait, and with them what it files.
    have hfirst : Relaxing g source between fun i => (i ∈ items ∨ waits i) ∨ i ∈ first := by
      refine visit.relaxing (inv.congr fun i => ?_)
      simp only [List.mem_cons, or_assoc]
    have hrest : Relaxing g source after fun i => (waits i ∨ i ∈ first) ∨ i ∈ second :=
      ih (hfirst.congr fun i => by simp only [or_assoc])
    refine hrest.congr fun i => ?_
    simp only [List.mem_append, or_assoc]

/-- What is filed by visits is not closer than some item that was visited. -/
theorem Visits.exists_le_of_filed (h : Visits g items before after filed)
    (hle : ∀ v, before.getD v 0 ≤ infinity) :
    ∀ i ∈ filed, ∃ item ∈ items, item.distance ≤ i.distance := by
  induction h with
  | nil distances => exact fun i hi => absurd hi List.not_mem_nil
  | @cons item items first second before between after visit _ ih =>
    intro i hi
    rcases List.mem_append.1 hi with hi | hi
    · exact ⟨item, List.mem_cons_self, visit.le_of_filed hle i hi⟩
    · obtain ⟨j, hj, hji⟩ := ih (fun v => Nat.le_trans (visit.lowering.le v) (hle v)) i hi
      exact ⟨j, List.mem_cons_of_mem item hj, hji⟩

end SparseGraph.ShortestPath
