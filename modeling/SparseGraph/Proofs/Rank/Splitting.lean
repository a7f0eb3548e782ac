import SparseGraph.Proofs.Rank.Reference
import SparseGraph.Rank.History

namespace SparseGraph.Rank

/-!
# Runs in parts

A run may be stopped at its limit and taken up again: the buffer is empty between any two rounds, so
the ranks alone decide what comes next. Whether a run has come to its end is told by its last
number, which is zero just if a round has moved no vertex.

* `State.rounds_of_quiet`, `State.rounds_of_moved` — what the first round decides;
* `State.rounds_add`, `State.rounds_of_zero_mem` — a run in two parts;
* `ranksAfter_reset`, `ranksAfter_run` — what the last event of a history does;
* `Ready.rounds`, `ready_ranksAfter` — the buffer is empty after every run and every history;
* `runs_compose` — what runs do after any history, whatever the arithmetic.
-/

variable {R W : Type} {ar : Arithmetic R W} {pool : Pool} {g : Graph} {config : Config R}
  {s : State R}

/-! ### The first round -/

namespace State

/-- **A round that moves no vertex** is the last one. -/
theorem rounds_of_quiet (h : (s.round ar pool g config).1 = 0) (limit : Nat) :
    s.rounds ar pool g config (limit + 1) = ([0], (s.round ar pool g config).2) := by
  simp only [rounds, h, if_true]

/-- **A round that moves a vertex** is followed by others up to the limit. -/
theorem rounds_of_moved (h : (s.round ar pool g config).1 ≠ 0) (limit : Nat) :
    s.rounds ar pool g config (limit + 1) =
      ((s.round ar pool g config).1 ::
          ((s.round ar pool g config).2.rounds ar pool g config limit).1,
        ((s.round ar pool g config).2.rounds ar pool g config limit).2) := by
  simp only [rounds, h, if_false]

/-! ### The numbers of vertices that moved -/

theorem length_rounds_le (limit : Nat) (s : State R) :
    (s.rounds ar pool g config limit).1.length ≤ limit := by
  induction limit generalizing s with
  | zero => exact Nat.le_refl _
  | succ limit ih =>
    by_cases h : (s.round ar pool g config).1 = 0
    · rw [rounds_of_quiet h]
      exact Nat.succ_le_succ (Nat.zero_le limit)
    · rw [rounds_of_moved h]
      exact Nat.succ_le_succ (ih _)

/-- Only the last number can be zero. -/
theorem zero_notMem_dropLast (limit : Nat) (s : State R) :
    0 ∉ (s.rounds ar pool g config limit).1.dropLast := by
  induction limit generalizing s with
  | zero => exact List.not_mem_nil
  | succ limit ih =>
    by_cases h : (s.round ar pool g config).1 = 0
    · rw [rounds_of_quiet h]
      exact List.not_mem_nil
    · rw [rounds_of_moved h]
      intro hmem
      -- The last number is one of the later rounds, if there are any.
      rcases hrest : ((s.round ar pool g config).2.rounds ar pool g config limit).1 with _ | ⟨k, ks⟩
      · rw [hrest] at hmem
        exact absurd hmem List.not_mem_nil
      · rw [hrest, List.dropLast_cons_cons, ← hrest] at hmem
        rcases List.mem_cons.1 hmem with hzero | hmem
        · exact h hzero.symm
        · exact ih _ hmem

/-- **A run that ends before its limit** ends with a round that moves no vertex. -/
theorem getLast?_rounds (limit : Nat) (s : State R)
    (h : (s.rounds ar pool g config limit).1.length < limit) :
    (s.rounds ar pool g config limit).1.getLast? = some 0 := by
  induction limit generalizing s with
  | zero => exact absurd h (Nat.not_lt_zero _)
  | succ limit ih =>
    by_cases hquiet : (s.round ar pool g config).1 = 0
    · rw [rounds_of_quiet hquiet]
      rfl
    · rw [rounds_of_moved hquiet] at h ⊢
      rw [List.getLast?_cons, ih _ (Nat.lt_of_succ_lt_succ h)]
      rfl

/-! ### Two parts of a run -/

/-- **A run that has not come to its end** goes on where it was stopped. -/
theorem rounds_add (a b : Nat) (s : State R) (h : 0 ∉ (s.rounds ar pool g config a).1) :
    s.rounds ar pool g config (a + b) =
      ((s.rounds ar pool g config a).1 ++
          ((s.rounds ar pool g config a).2.rounds ar pool g config b).1,
        ((s.rounds ar pool g config a).2.rounds ar pool g config b).2) := by
  -- Induction on the first part: each of its rounds moves a vertex, so the whole run goes on too.
  induction a generalizing s with
  | zero =>
    rw [Nat.zero_add]
    rfl
  | succ a ih =>
    rw [Nat.add_right_comm]
    by_cases hquiet : (s.round ar pool g config).1 = 0
    · rw [rounds_of_quiet hquiet] at h
      exact absurd List.mem_cons_self h
    · rw [rounds_of_moved hquiet] at h ⊢
      rw [rounds_of_moved hquiet, ih _ fun hmem => h (List.mem_cons_of_mem _ hmem),
        List.cons_append]

/-- **A run that has come to its end** is the same under every greater limit. -/
theorem rounds_of_zero_mem (a b : Nat) (s : State R) (h : 0 ∈ (s.rounds ar pool g config a).1) :
    s.rounds ar pool g config (a + b) = s.rounds ar pool g config a := by
  induction a generalizing s with
  | zero => exact absurd h List.not_mem_nil
  | succ a ih =>
    rw [Nat.add_right_comm]
    by_cases hquiet : (s.round ar pool g config).1 = 0
    · rw [rounds_of_quiet hquiet, rounds_of_quiet hquiet]
    · rw [rounds_of_moved hquiet] at h
      have hrest : 0 ∈ ((s.round ar pool g config).2.rounds ar pool g config a).1 :=
        (List.mem_cons.1 h).resolve_left fun hzero => hquiet hzero.symm
      rw [rounds_of_moved hquiet, rounds_of_moved hquiet, ih _ hrest]

/-- The limit on rounds is no part of what a round does. -/
theorem rounds_withLimit (damping epsilon : R) (k l limit : Nat) (s : State R) :
    s.rounds ar pool g ⟨damping, epsilon, k⟩ limit =
      s.rounds ar pool g ⟨damping, epsilon, l⟩ limit := by
  induction limit generalizing s with
  | zero => rfl
  | succ limit ih =>
    have hround : s.round ar pool g ⟨damping, epsilon, k⟩ =
      s.round ar pool g ⟨damping, epsilon, l⟩ := rfl
    simp only [rounds, hround, ih]

end State

/-! ### States between runs -/

/-- A run in a history changes nothing if it does not take place. -/
theorem State.handle_run (s : State R) :
    s.handle ar (.run pool g config) = (s.run? ar pool g config).elim s Prod.snd := by
  rw [handle]
  split
  next heq => rw [heq]; rfl
  next heq => rw [heq]; rfl

/-- A history that ends with a reset. -/
theorem ranksAfter_reset (ar : Arithmetic R W) (n : Nat) (events : List (Event R)) :
    ranksAfter ar n (events ++ [.reset]) = (ranksAfter ar n events).reset ar :=
  ranksAfter_append ar n events _

/-- A history that ends with a run. -/
theorem ranksAfter_run (ar : Arithmetic R W) (n : Nat) (events : List (Event R)) (pool : Pool)
    (g : Graph) (config : Config R) :
    ranksAfter ar n (events ++ [.run pool g config]) =
      ((ranksAfter ar n events).run? ar pool g config).elim (ranksAfter ar n events) Prod.snd := by
  rw [ranksAfter_append]
  exact State.handle_run _

namespace Ready

/-- **A run leaves the buffer empty.** -/
theorem rounds (pool : Pool) (config : Config R) (limit : Nat) (h : Ready ar g s) :
    Ready ar g (s.rounds ar pool g config limit).2 := by
  induction limit generalizing s with
  | zero => exact h
  | succ limit ih =>
    have hstep : Ready ar g (s.round ar pool g config).2 := h.step pool config
    by_cases hquiet : (s.round ar pool g config).1 = 0
    · rw [State.rounds_of_quiet hquiet]
      exact hstep
    · rw [State.rounds_of_moved hquiet]
      exact ih hstep

/-- A run takes place if there are ranks for the vertices of the graph. -/
theorem run?_eq (h : Ready ar g s) (hn : 0 < g.numNodes) :
    s.run? ar pool g config = some (s.rounds ar pool g config config.maxRounds) := by
  rw [State.run?, if_neg (not_not.2 h.size_ranks), if_neg (Nat.ne_of_gt hn)]

/-- A reset forgets what was before. -/
theorem reset_eq (h : Ready ar g s) : s.reset ar = .new ar g.numNodes := by
  rw [State.reset, h.size_ranks]

/-- Only the number of vertices matters. -/
theorem congr {g' : Graph} (h : Ready ar g s) (hsize : g.numNodes = g'.numNodes) :
    Ready ar g' s where
  size_ranks := h.size_ranks.trans hsize
  buffer_eq := hsize ▸ h.buffer_eq

/-- **An event leaves the buffer empty,** whatever the graph of a run. -/
theorem handle (h : Ready ar g s) (e : Event R) : Ready ar g (s.handle ar e) := by
  cases e with
  | reset =>
    show Ready ar g (s.reset ar)
    rw [h.reset_eq]
    exact ready_new ar g
  | run pool g' config =>
    -- Without ranks for just the vertices of the graph, or without vertices, nothing takes place.
    rw [State.handle_run, State.run?]
    by_cases hsize : s.ranks.size = g'.numNodes
    · rw [if_neg (not_not.2 hsize)]
      by_cases hzero : g'.numNodes = 0
      · rw [if_pos hzero]
        exact h
      · rw [if_neg hzero]
        have hsame := h.size_ranks.symm.trans hsize
        exact ((h.congr hsame).rounds pool config _).congr hsame.symm
    · rw [if_pos hsize]
      exact h

end Ready

/-- **Every history** leaves the buffer empty. -/
theorem ready_ranksAfter (ar : Arithmetic R W) (g : Graph) (events : List (Event R)) :
    Ready ar g (ranksAfter ar g.numNodes events) := by
  induction events using List.reverseRecOn with
  | nil => exact ready_new ar g
  | append_singleton events e ih =>
    rw [ranksAfter_append]
    exact ih.handle e

/-- **Runs compose,** whatever the operations on ranks and sums do. After every history there are
    ranks for all vertices and the buffer is empty. From every such state, whatever its ranks, a run
    takes place and leads to one; it counts the moved vertices of at most as many rounds as its
    limit says, only the last number can be zero, and it is if there are fewer numbers. A run that
    has not come to its end is completed by a second one to just what a single run under both
    limits yields, and one that has is itself what that run yields. A run right after a reset is
    one on new ranks. A history begins with new ranks, and each event of it is a reset or a run of
    the ranks that the events before it have left. -/
theorem runs_compose {R W : Type} (ar : Arithmetic R W) (pool : Pool) (g : Graph)
    (hn : 0 < g.numNodes) (damping epsilon : R) :
    let run (s : State R) (k : Nat) := s.run? ar pool g ⟨damping, epsilon, k⟩
    let empty := Array.replicate g.numNodes ar.zero
    (∀ events, (ranksAfter ar g.numNodes events).ranks.size = g.numNodes ∧
      (ranksAfter ar g.numNodes events).buffer = empty) ∧
    (∀ s : State R, s.ranks.size = g.numNodes → s.buffer = empty →
      (∀ k, ∃ activity after, run s k = some (activity, after) ∧
        after.ranks.size = g.numNodes ∧ after.buffer = empty ∧
        activity.length ≤ k ∧ 0 ∉ activity.dropLast ∧
        (activity.length < k → activity.getLast? = some 0)) ∧
      ∀ a b activity middle, run s a = some (activity, middle) →
        (0 ∉ activity → ∃ further after, run middle b = some (further, after) ∧
          run s (a + b) = some (activity ++ further, after)) ∧
        (0 ∈ activity → run s (a + b) = some (activity, middle))) ∧
    (∀ events k, run (ranksAfter ar g.numNodes (events ++ [.reset])) k =
      run (.new ar g.numNodes) k) ∧
    ranksAfter ar g.numNodes [] = .new ar g.numNodes ∧
    ∀ events,
      ranksAfter ar g.numNodes (events ++ [.reset]) = (ranksAfter ar g.numNodes events).reset ar ∧
      ∀ pool h config, ranksAfter ar g.numNodes (events ++ [.run pool h config]) =
        ((ranksAfter ar g.numNodes events).run? ar pool h config).elim
          (ranksAfter ar g.numNodes events) Prod.snd := by
  intro run empty
  refine ⟨fun events => ?_,
    fun s hsize hbuffer => ⟨fun k => ?_, fun a b activity middle hrun => ?_⟩, fun events k => ?_,
    rfl, fun events => ⟨ranksAfter_reset ar _ events, ranksAfter_run ar _ events⟩⟩
  · have hready := ready_ranksAfter ar g events
    exact ⟨hready.size_ranks, hready.buffer_eq⟩
  · have hready : Ready ar g s := ⟨hsize, hbuffer⟩
    have hafter := hready.rounds pool ⟨damping, epsilon, k⟩ k
    exact ⟨_, _, hready.run?_eq hn, hafter.size_ranks, hafter.buffer_eq, State.length_rounds_le k s,
      State.zero_notMem_dropLast k s, State.getLast?_rounds k s⟩
  · -- Both parts and the whole are rounds under the configuration of the first part.
    have hready : Ready ar g s := ⟨hsize, hbuffer⟩
    have hwhole : run s (a + b) = some (s.rounds ar pool g ⟨damping, epsilon, a⟩ (a + b)) := by
      rw [State.rounds_withLimit damping epsilon a (a + b)]
      exact hready.run?_eq hn
    have hfirst : s.rounds ar pool g ⟨damping, epsilon, a⟩ a = (activity, middle) :=
      Option.some.inj ((hready.run?_eq hn).symm.trans hrun)
    constructor
    · intro hmoving
      have hmiddle : Ready ar g middle := by
        have hafter := hready.rounds pool ⟨damping, epsilon, a⟩ a
        rwa [hfirst] at hafter
      refine ⟨_, _, hmiddle.run?_eq hn, ?_⟩
      rw [hwhole, State.rounds_add a b s (by rw [hfirst]; exact hmoving), hfirst,
        State.rounds_withLimit damping epsilon a b b]
    · intro hended
      rw [hwhole, State.rounds_of_zero_mem a b s (by rw [hfirst]; exact hended), hfirst]
  · rw [ranksAfter_reset, (ready_ranksAfter ar g events).reset_eq]

/-! ### A run that is stopped after its first round -/

/-- A run of at most `k` rounds at this graph, with sums that are cut off. -/
def runSinks (s : State Rat) (k : Nat) : Option (List Nat × State Rat) :=
  s.run? hundredths ⟨2⟩ sinks ⟨1 / 2, 1 / 100, k⟩

/-- Runs of other configurations on other pools, the first of them forgotten by a reset. -/
def pastRuns : List (Event Rat) :=
  [.run ⟨3⟩ sinks ⟨3 / 4, 0, 3⟩, .reset, .run ⟨1⟩ sinks ⟨1 / 4, 0, 1⟩]

/-- The general theorem at this graph after these runs: a run that is stopped after one of its three
    rounds and taken up again yields what the whole run yields, and a greater limit changes nothing.
    After a reset there are four rounds, as from new ranks. -/
theorem runs_compose_sinks :
    0 < sinks.numNodes ∧
    ∃ middle after,
      runSinks (ranksAfter hundredths 4 pastRuns) 1 = some ([4], middle) ∧
      ranksAfter hundredths 4 (pastRuns ++ [.run ⟨2⟩ sinks ⟨1 / 2, 1 / 100, 1⟩]) = middle ∧
      runSinks middle 8 = some ([1, 0], after) ∧
      runSinks (ranksAfter hundredths 4 pastRuns) 9 = some ([4, 1, 0], after) ∧
      runSinks (ranksAfter hundredths 4 pastRuns) 13 = some ([4, 1, 0], after) ∧
      (runSinks (ranksAfter hundredths 4 (pastRuns ++ [.reset])) 9).map Prod.fst =
        some [4, 4, 1, 0] := by
  have hn : 0 < sinks.numNodes := by decide
  have hstopped : (runSinks (ranksAfter hundredths 4 pastRuns) 1).map Prod.fst = some [4] := by
    decide +kernel
  have hended : (runSinks (ranksAfter hundredths 4 pastRuns) 9).map Prod.fst = some [4, 1, 0] := by
    decide +kernel
  have hnew : (runSinks (.new hundredths 4) 9).map Prod.fst = some [4, 4, 1, 0] := by
    decide +kernel
  obtain ⟨hready, hruns, hreset, _, hhistory⟩ :=
    runs_compose hundredths ⟨2⟩ sinks hn (1 / 2) (1 / 100)
  obtain ⟨hrun, hsplit⟩ := hruns _ (hready pastRuns).1 (hready pastRuns).2
  obtain ⟨activity, middle, (hmiddle : runSinks (ranksAfter hundredths 4 pastRuns) 1 = _), _⟩ :=
    hrun 1
  obtain rfl : activity = [4] :=
    Option.some.inj ((congrArg (Option.map Prod.fst) hmiddle).symm.trans hstopped)
  have hleft : _ = (runSinks (ranksAfter hundredths 4 pastRuns) 1).elim _ Prod.snd :=
    (hhistory pastRuns).2 ⟨2⟩ sinks ⟨1 / 2, 1 / 100, 1⟩
  rw [hmiddle] at hleft
  obtain ⟨further, after, hafter, hwhole⟩ := (hsplit 1 8 _ middle hmiddle).1 (by decide)
  obtain rfl : further = [1, 0] := by
    have hall : [4] ++ further = [4, 1, 0] :=
      Option.some.inj ((congrArg (Option.map Prod.fst) hwhole).symm.trans hended)
    exact List.append_cancel_left hall
  have hlonger := (hsplit 9 4 _ after hwhole).2 (by decide)
  exact ⟨hn, middle, after, hmiddle, hleft, hafter, hwhole, hlonger,
    (congrArg (Option.map Prod.fst) (hreset pastRuns 9)).trans hnew⟩

end SparseGraph.Rank
