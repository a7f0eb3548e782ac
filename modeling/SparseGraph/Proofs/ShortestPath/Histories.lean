import Mathlib.Data.List.Induction
import SparseGraph.Proofs.ShortestPath.DeltaStepping
import SparseGraph.ShortestPath.History

namespace SparseGraph.ShortestPath

/-!
# Distances over any history

A state is reset and used for runs in any order. A run can only begin where the source stands at
distance 0: right after a reset to it, or once the distances of the last reset have been found. In
the second case no arc leads closer, so the run finds nothing to do, whichever vertex at distance 0
it begins with.

* `Phase` — what a state can be after the last reset: out of use, fresh, or found;
* `Phase.handle`, `phase_stateAfter` — each event keeps this, so every history does;
* `Progress.finish_start_of_found` — a run on distances that were found is one idle round;
* `run_stateAfter` — what a run does after any history.
-/

variable {g : Graph} {source shift : Nat} {distances : Array Nat}

/-! ### Runs on distances that were found -/

/-- Arcs that lead no closer change nothing when they are relaxed. -/
theorem Sweep.relaxArcs_of_le {s : Sweep} {distance : Nat} {arcs : List Arc}
    (h : ∀ a ∈ arcs, s.distances.getD a.target.toNat 0 ≤ through distance a.weight.toNat) :
    s.relaxArcs distance arcs = s := by
  induction arcs with
  | nil => rfl
  | cons a arcs ih =>
    have hfirst : s.relax a.target.toNat (through distance a.weight.toNat) = s := by
      have hnone := lowerAt?_eq_none_iff.2 (h a List.mem_cons_self)
      simp only [relax, hnone]
    show relaxArcs (s.relax a.target.toNat (through distance a.weight.toNat)) distance arcs = s
    rw [hfirst]
    exact ih fun b hb => h b (List.mem_cons_of_mem a hb)

/-- **Nothing is left to do.** If no vertex waits, draining a vertex at distance 0 changes nothing,
    files nothing and finds nothing stale. -/
theorem drain_of_found (inv : Relaxing g source distances fun _ => False) {v : Nat}
    (hv : distances.getD v 0 = 0) : drain g distances [⟨v, 0⟩] = ⟨distances, #[], 0⟩ := by
  have harcs : ∀ a ∈ g.arcs v, distances.getD a.target.toNat 0 ≤ through 0 a.weight.toNat := by
    intro a ha
    have hle := (inv.waits_or_le v a ha).resolve_left not_false
    rwa [hv] at hle
  show Sweep.visit g ⟨distances, #[], 0⟩ ⟨v, 0⟩ = _
  simp only [Sweep.visit, hv, Nat.lt_irrefl, if_false]
  exact Sweep.relaxArcs_of_le harcs

namespace Progress

variable {p : Progress shift}

/-- A run ends where nothing can be drained. -/
theorem finish_of_none (h : p.drain? g = none) : p.finish g = p := by
  rw [finish]
  split
  next => rfl
  next heq => rw [h] at heq; cases heq

/-- A run goes on behind its first drain. -/
theorem finish_of_some {d : Drain} {q : Progress shift} (h : p.drain? g = some (d, q)) :
    p.finish g = q.finish g := by
  rw [finish]
  split
  next heq => rw [h] at heq; cases heq
  next heq => rw [h] at heq; cases heq; rfl

/-- At the start the vertex that the run begins with is all that can be taken. -/
theorem popMin?_start (shift v : Nat) (distances : Array Nat) :
    (start shift v distances).pending.popMin? =
      some (bucketOf shift 0, #[⟨v, 0⟩], Worklist.empty) := rfl

/-- **A run on distances that were found is one idle round.** It may begin with any vertex at
    distance 0. -/
theorem finish_start_of_found (inv : Relaxing g source distances fun _ => False) {v : Nat}
    (hv : distances.getD v 0 = 0) (shift : Nat) :
    ((start shift v distances).finish g).tally = ⟨1, 0, 0⟩ ∧
      ((start shift v distances).finish g).distances = distances := by
  obtain ⟨d, q, hdrain⟩ : ∃ d q, (start shift v distances).drain? g = some (d, q) := ⟨_, _, rfl⟩
  obtain ⟨_, hdistances, items, rest, hpop, hitems, hpending⟩ := of_drain? hdrain
  have htally := tally_of_drain? hdrain
  rw [popMin?_start] at hpop
  obtain ⟨_, rfl, rfl⟩ : _ ∧ #[⟨v, 0⟩] = items ∧ Worklist.empty = rest := by
    simpa only [Option.some.injEq, Prod.mk.injEq] using hpop
  have hidle : drain g (start shift v distances).distances d.items = ⟨distances, #[], 0⟩ := by
    rw [← hitems]
    exact drain_of_found inv hv
  rw [hidle] at hdistances hpending htally
  -- Nothing is filed, so nothing waits after the drain.
  have hlast : q.drain? g = none := by
    unfold drain?
    rw [hpending]
    rfl
  rw [finish_of_some hdrain, finish_of_none hlast]
  exact ⟨htally, hdistances⟩

end Progress

/-! ### One run -/

/-- When a run succeeds, and what it leaves. -/
theorem State.run_eq_ok_iff {s s' : State} {tally : Tally} :
    s.run g source shift = .ok (tally, s') ↔
      source < g.numNodes ∧ s.distances.size = g.numNodes ∧ s.distance? source = some 0 ∧
        tally = ((Progress.start shift source s.distances).finish g).tally ∧
        s' = ⟨((Progress.start shift source s.distances).finish g).distances⟩ := by
  unfold State.run
  constructor
  · intro h
    split at h
    · cases h
    next hsource =>
      split at h
      · cases h
      next hsize =>
        split at h
        · cases h
        next hzero =>
          cases h
          exact ⟨Nat.lt_of_not_le hsource, Decidable.not_not.1 hsize, Decidable.not_not.1 hzero,
            rfl, rfl⟩
  · rintro ⟨hsource, hsize, hzero, rfl, rfl⟩
    rw [if_neg (Nat.not_le.2 hsource), if_neg (not_not_intro hsize), if_neg (not_not_intro hzero)]

/-- What a run in a history leaves behind. -/
theorem State.handle_run_of_ok {s s' : State} {v : Nat} {tally : Tally}
    (hrun : s.run g v shift = .ok (tally, s')) : s.handle g (.run v shift) = s' := by
  unfold handle
  simp only [hrun]

/-- A run that is refused leaves the state alone. -/
theorem State.handle_run_of_error {s : State} {v : Nat} {fault : RunError}
    (hrun : s.run g v shift = .error fault) : s.handle g (.run v shift) = s := by
  unfold handle
  simp only [hrun]

/-- A vertex that stands at distance 0 stands in the state. -/
theorem State.getD_of_distance? {s : State} {v d : Nat} (h : s.distance? v = some d) :
    s.distances.getD v 0 = d := by
  unfold State.distance? at h
  rw [Array.getD_eq_getD_getElem?, h]
  rfl

/-- Where a search begins, only its source stands at distance 0. -/
theorem State.distance?_initial_ne_zero {n v w : Nat} (h : v ≠ w ∨ n ≤ v) :
    (⟨initialDistances n w⟩ : State).distance? v ≠ some 0 := by
  unfold State.distance?
  by_cases hv : v < n
  · have hne : v ≠ w := by omega
    have hfar := getD_initialDistances_of_ne hv hne
    intro hzero
    have heq : (initialDistances n w).getD v 0 = 0 := by
      rw [Array.getD_eq_getD_getElem?, hzero]
      rfl
    rw [hfar] at heq
    exact absurd heq (by decide)
  · rw [Array.getElem?_eq_none]
    · simp
    · rw [size_initialDistances]
      omega

/-- **A run on distances that were found changes nothing.** -/
theorem State.run_of_found {s s' : State} {v : Nat} {tally : Tally}
    (inv : Relaxing g source s.distances fun _ => False)
    (hrun : s.run g v shift = .ok (tally, s')) : tally = ⟨1, 0, 0⟩ ∧ s' = s := by
  obtain ⟨_, _, hzero, htally, hstate⟩ := State.run_eq_ok_iff.1 hrun
  obtain ⟨hcount, hdistances⟩ :=
    Progress.finish_start_of_found inv (State.getD_of_distance? hzero) shift
  rw [hcount] at htally
  rw [hdistances] at hstate
  exact ⟨htally, hstate⟩

/-! ### Phases of a history -/

/-- What a state can be after a history with this last reset. -/
inductive Phase (g : Graph) : Option Nat → State → Prop
  /-- Nothing was reset, or to a source that is no vertex: no vertex stands at distance 0. -/
  | unused {last : Option Nat} {s : State} (size_eq : s.distances.size = g.numNodes)
      (ne_zero : ∀ v, s.distance? v ≠ some 0) : Phase g last s
  /-- The source of the last reset stands at distance 0, and only the source is reached. -/
  | fresh {source : Nat} (h : source < g.numNodes) :
      Phase g (some source) ⟨initialDistances g.numNodes source⟩
  /-- The distances from the source of the last reset have been found. -/
  | found {source : Nat} {s : State} (inv : Relaxing g source s.distances fun _ => False) :
      Phase g (some source) s

namespace Phase

variable {last : Option Nat} {s s' : State}

/-- In the beginning no vertex is reached. -/
theorem new (g : Graph) : Phase g none (State.new g.numNodes) := by
  refine .unused Array.size_replicate ?_
  intro v hzero
  simp [State.new, State.distance?, Array.getElem?_replicate, infinity, Text.maxWord] at hzero

/-- The distances are those of the vertices of the graph. -/
theorem size_eq (h : Phase g last s) : s.distances.size = g.numNodes := by
  cases h with
  | unused size_eq _ => exact size_eq
  | fresh _ => exact size_initialDistances _ _
  | found inv => exact inv.size_eq

/-- A reset forgets what was before. -/
theorem reset (h : Phase g last s) (source : Nat) : Phase g (some source) (s.reset source) := by
  have hreset : s.reset source = ⟨initialDistances g.numNodes source⟩ := by
    unfold State.reset
    rw [h.size_eq]
  rw [hreset]
  by_cases hsource : source < g.numNodes
  · exact .fresh hsource
  · -- No vertex is set to 0 if the source is none.
    refine .unused (size_initialDistances _ _) ?_
    intro v
    exact State.distance?_initial_ne_zero (by omega)

/-- **A run finds the distances of the last reset,** or finds them again. -/
theorem run {v : Nat} {tally : Tally} (h : Phase g last s)
    (hrun : s.run g v shift = .ok (tally, s')) :
    ∃ source, last = some source ∧ Relaxing g source s'.distances fun _ => False := by
  obtain ⟨_, _, hzero, _, hstate⟩ := State.run_eq_ok_iff.1 hrun
  cases h with
  | unused _ ne_zero => exact absurd hzero (ne_zero v)
  | @fresh source _ =>
    -- Only the source stands at distance 0, so the run begins with it.
    have hv : v = source := by
      by_contra hne
      exact State.distance?_initial_ne_zero (.inl hne) hzero
    subst hv
    refine ⟨v, rfl, ?_⟩
    rw [hstate]
    exact Progress.relaxing_finish (Progress.relaxing_start g v shift)
  | @found source _ inv =>
    obtain ⟨_, rfl⟩ := State.run_of_found inv hrun
    exact ⟨source, rfl, inv⟩

/-- **An event keeps the phases,** up to the last reset. -/
theorem handle (h : Phase g last s) (e : Event) :
    Phase g (match e with | .reset source => some source | .run .. => last) (s.handle g e) := by
  cases e with
  | reset source => exact h.reset source
  | run source shift =>
    cases hrun : s.run g source shift with
    | error fault =>
      rw [State.handle_run_of_error hrun]
      exact h
    | ok result =>
      obtain ⟨tally, s'⟩ := result
      rw [State.handle_run_of_ok hrun]
      obtain ⟨reset, rfl, inv⟩ := h.run hrun
      exact .found inv

end Phase

/-! ### Histories -/

/-- What a new state has become after events in order. -/
def stateAfter (g : Graph) (events : List Event) : State :=
  (State.new g.numNodes).afterAll g events

theorem stateAfter_append (g : Graph) (first second : List Event) :
    stateAfter g (first ++ second) = (stateAfter g first).afterAll g second :=
  State.afterAll_append g _ first second

theorem lastReset?_concat (events : List Event) (e : Event) :
    lastReset? (events ++ [e]) =
      match e with | .reset source => some source | .run .. => lastReset? events := by
  unfold lastReset?
  rw [List.reverse_append]
  cases e <;> simp

/-- **Every history** leaves the state in a phase of its last reset. -/
theorem phase_stateAfter (g : Graph) (events : List Event) :
    Phase g (lastReset? events) (stateAfter g events) := by
  induction events using List.reverseRecOn with
  | nil => exact Phase.new g
  | append_singleton events e ih =>
    rw [stateAfter_append, lastReset?_concat]
    exact ih.handle e

/-- Once the distances have been found, runs leave them alone until the next reset. -/
theorem afterAll_of_found {s : State} (inv : Relaxing g source s.distances fun _ => False)
    {events : List Event} (hruns : ∀ e ∈ events, ∀ r, e ≠ .reset r) : s.afterAll g events = s := by
  induction events with
  | nil => rfl
  | cons e events ih =>
    have hrest := ih fun e' he' => hruns e' (List.mem_cons_of_mem e he')
    have hfirst : s.handle g e = s := by
      cases e with
      | reset r => exact absurd rfl (hruns _ List.mem_cons_self r)
      | run v shift =>
        cases hrun : s.run g v shift with
        | error fault => exact State.handle_run_of_error hrun
        | ok result =>
          rw [State.handle_run_of_ok hrun]
          exact (State.run_of_found inv hrun).2
    show (s.handle g e).afterAll g events = s
    rw [hfirst, hrest]

/-- **Runs after any history.** A source that is no vertex is refused, and so is a source that does
    not stand at distance 0; neither changes the state. Every other run succeeds, and the distances
    are then those from the source of the last reset, whatever the source of the run. If a run has
    succeeded since that reset, it is one idle round and changes nothing. -/
theorem run_stateAfter (g : Graph) (events : List Event) (source shift : Nat) :
    (g.numNodes ≤ source →
      (stateAfter g events).run g source shift =
        .error (.source (.vertexOutOfBounds source g.numNodes)) ∧
      (stateAfter g events).handle g (.run source shift) = stateAfter g events) ∧
    (source < g.numNodes → (stateAfter g events).distance? source ≠ some 0 →
      (stateAfter g events).run g source shift = .error .notReset ∧
      (stateAfter g events).handle g (.run source shift) = stateAfter g events) ∧
    (source < g.numNodes → (stateAfter g events).distance? source = some 0 →
      ∃ tally s, (stateAfter g events).run g source shift = .ok (tally, s) ∧
        (stateAfter g events).handle g (.run source shift) = s ∧
        (∃ last, lastReset? events = some last ∧ s.distances.size = g.numNodes ∧
          ∀ v < g.numNodes, ∃ d, s.distance? v = some d ∧ IsDistance g last v d) ∧
        ∀ before v k between, events = before ++ .run v k :: between →
          (∃ result, (stateAfter g before).run g v k = .ok result) →
          (∀ e ∈ between, ∀ r, e ≠ .reset r) →
          tally = ⟨1, 0, 0⟩ ∧ s = stateAfter g events) := by
  have hphase := phase_stateAfter g events
  have hsize := hphase.size_eq
  refine ⟨?_, ?_, ?_⟩
  · intro hsource
    have hrun : (stateAfter g events).run g source shift =
        .error (.source (.vertexOutOfBounds source g.numNodes)) := by
      unfold State.run
      rw [if_pos hsource]
    exact ⟨hrun, State.handle_run_of_error hrun⟩
  · intro hsource hzero
    have hrun : (stateAfter g events).run g source shift = .error .notReset := by
      unfold State.run
      rw [if_neg (Nat.not_le.2 hsource), if_neg (not_not_intro hsize), if_pos hzero]
    exact ⟨hrun, State.handle_run_of_error hrun⟩
  · intro hsource hzero
    obtain ⟨tally, s, hrun⟩ : ∃ tally s,
        (stateAfter g events).run g source shift = .ok (tally, s) :=
      ⟨_, _, State.run_eq_ok_iff.2 ⟨hsource, hsize, hzero, rfl, rfl⟩⟩
    obtain ⟨last, hlast, inv⟩ := hphase.run hrun
    refine ⟨_, _, hrun, State.handle_run_of_ok hrun, ⟨last, hlast, inv.size_eq, ?_⟩, ?_⟩
    · intro v hv
      refine ⟨_, getElem?_eq_some_getD (by rw [inv.size_eq]; exact hv), ?_⟩
      exact inv.isDistance (fun _ => not_false) hv
    · rintro before v k between rfl ⟨⟨first, s⟩, hbefore⟩ hruns
      -- The earlier run has found the distances, and nothing has touched them since.
      obtain ⟨source', _, hfound⟩ := (phase_stateAfter g before).run hbefore
      have hbetween : stateAfter g (before ++ .run v k :: between) = s := by
        rw [stateAfter_append]
        show ((stateAfter g before).handle g (.run v k)).afterAll g between = s
        rw [State.handle_run_of_ok hbefore]
        exact afterAll_of_found hfound hruns
      rw [hbetween] at hrun ⊢
      exact State.run_of_found hfound hrun

/-! ### A shortcut -/

/-- Vertex 1 is no farther than vertex 0, and vertex 2 is closer by way of it. -/
def shortcut : Graph where
  offsets := #[0, 2, 3, 3]
  targets := #[1, 2, 2]
  weights := #[0, 5, 3]
  first_offset := rfl
  last_offset := rfl
  sorted_offsets := by decide
  size_weights := rfl
  target_lt := by simp

/-- Runs that are refused, resets, and two runs that succeed, the second one not from the source of
    the last reset. -/
def mixedEvents : List Event :=
  [.run 0 1, .reset 7, .run 0 1, .reset 2, .run 2 0, .reset 0, .run 1 1, .run 0 1, .run 2 1]

/-- The general theorem at the shortcut: after the mixed events vertex 3 is refused, vertex 2 does
    not stand at distance 0, and a run from vertex 1 has nothing to do. -/
theorem run_stateAfter_shortcut :
    (shortcut.numNodes ≤ 3 ∧ (stateAfter shortcut mixedEvents).run shortcut 3 1 =
      .error (.source (.vertexOutOfBounds 3 3))) ∧
    (2 < shortcut.numNodes ∧ (stateAfter shortcut mixedEvents).distance? 2 ≠ some 0 ∧
      (stateAfter shortcut mixedEvents).run shortcut 2 1 = .error .notReset) ∧
    (1 < shortcut.numNodes ∧ (stateAfter shortcut mixedEvents).distance? 1 = some 0 ∧
      (∃ s, (stateAfter shortcut mixedEvents).run shortcut 1 1 = .ok (⟨1, 0, 0⟩, s) ∧
        s = ⟨#[0, 0, 3]⟩) ∧
      IsDistance shortcut 0 2 3) := by
  have hstate : stateAfter shortcut mixedEvents = ⟨#[0, 0, 3]⟩ := by decide +kernel
  have hbeyond : shortcut.numNodes ≤ 3 := by decide
  have hfar : (stateAfter shortcut mixedEvents).distance? 2 ≠ some 0 := by
    rw [hstate]
    decide
  have hzero : (stateAfter shortcut mixedEvents).distance? 1 = some 0 := by
    rw [hstate]
    rfl
  have hfirst : ∃ result,
      (stateAfter shortcut (mixedEvents.take 7)).run shortcut 0 1 = .ok result :=
    ⟨(⟨4, 3, 1⟩, ⟨#[0, 0, 3]⟩), by decide +kernel⟩
  refine ⟨⟨hbeyond, ((run_stateAfter shortcut mixedEvents 3 1).1 hbeyond).1⟩,
    ⟨by decide, hfar, ((run_stateAfter shortcut mixedEvents 2 1).2.1 (by decide) hfar).1⟩,
    by decide, hzero, ?_⟩
  obtain ⟨tally, s, hrun, _, ⟨last, hlast, _, hall⟩, hidle⟩ :=
    (run_stateAfter shortcut mixedEvents 1 1).2.2 (by decide) hzero
  obtain ⟨rfl, rfl⟩ := hidle (mixedEvents.take 7) 0 1 [.run 2 1] rfl hfirst (by simp)
  refine ⟨⟨_, hrun, hstate⟩, ?_⟩
  obtain ⟨d, hd, hdist⟩ := hall 2 (by decide)
  rw [hstate] at hd
  cases hd
  cases hlast
  exact hdist

end SparseGraph.ShortestPath
