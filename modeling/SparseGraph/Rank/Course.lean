import SparseGraph.Rank.PageRank

namespace SparseGraph.Rank

/-!
# Courses of ranks

A run goes through rank after rank until a round moves no vertex or the limit is reached. Here are
all of them, not only the last ones.

* `course` — the states after each round of an iteration;
* `forall_mem_course`, `map_course` — from what one step does to what holds of a course;
* `State.step`, `pageRankCourse` — the rounds of the ranks of a graph;
* `referenceCourse` — the rounds of the sequential iteration;
* `State.rounds_eq_course`, `referenceRounds_eq_course` — the runs end where their courses end.
-/

/-- The states after each of at most `limit` rounds. The last of them is the first one after which
    no further round is asked for. -/
def course {S : Type} (step : S → Bool × S) : Nat → S → List S
  | 0, _ => []
  | limit + 1, s => (step s).2 :: if (step s).1 then course step limit (step s).2 else []

/-- What every step keeps holds throughout the course. -/
theorem forall_mem_course {S : Type} {step : S → Bool × S} {P : S → Prop}
    (keep : ∀ s, P s → P (step s).2) {s : S} (h : P s) (limit : Nat) :
    ∀ t ∈ course step limit s, P t := by
  induction limit generalizing s with
  | zero => exact fun t ht => absurd ht List.not_mem_nil
  | succ limit ih =>
    intro t ht
    rcases List.mem_cons.1 ht with rfl | ht
    · exact keep s h
    · split at ht
      next => exact ih (keep s h) t ht
      next => exact absurd ht List.not_mem_nil

/-- If each step of one iteration is a step of another one, seen through `view`, then so are their
    courses. The invariant says from which states this is known. -/
theorem map_course {S T : Type} {step : S → Bool × S} {step' : T → Bool × T} {view : S → T}
    {P : S → Prop} (keep : ∀ s, P s → P (step s).2)
    (agree : ∀ s, P s → step' (view s) = ((step s).1, view (step s).2)) {s : S} (h : P s)
    (limit : Nat) : (course step limit s).map view = course step' limit (view s) := by
  induction limit generalizing s with
  | zero => rfl
  | succ limit ih =>
    rw [course, course, agree s h, List.map_cons]
    cases (step s).1 with
    | false => rfl
    | true => exact congrArg _ (ih (keep s h))

variable {R W : Type} (ar : Arithmetic R W)

/-- One round: whether any vertex moved, and the state after it. -/
def State.step (pool : Pool) (g : Graph) (config : Config R) (s : State R) : Bool × State R :=
  ((s.round ar pool g config).1 != 0, (s.round ar pool g config).2)

/-- The ranks of the vertices of a graph after each round. -/
def pageRankCourse (pool : Pool) (g : Graph) (config : Config R) : List (Array R) :=
  if g.numNodes = 0 then []
  else
    (course (State.step ar pool g config) config.maxRounds (.new ar g.numNodes)).map State.ranks

/-- The ranks of the vertices of a graph after each round of the sequential iteration. -/
def referenceCourse (g : Graph) (config : Config R) : List (Array R) :=
  if g.numNodes = 0 then []
  else
    course (referenceRound ar g config) config.maxRounds
      (Array.replicate g.numNodes (ar.div ar.one (ar.ofNat g.numNodes)))

/-! ### Runs and their courses -/

/-- A run counts the vertices that moved for each round of its course, and ends where it ends. -/
theorem State.rounds_eq_course (pool : Pool) (g : Graph) (config : Config R) (limit : Nat)
    (s : State R) :
    (s.rounds ar pool g config limit).1.length =
        (course (State.step ar pool g config) limit s).length ∧
      (s.rounds ar pool g config limit).2 =
        (course (State.step ar pool g config) limit s).getLastD s := by
  induction limit generalizing s with
  | zero => exact ⟨rfl, rfl⟩
  | succ limit ih =>
    obtain ⟨hlength, hlast⟩ := ih (s.round ar pool g config).2
    simp only [rounds, course, step]
    by_cases hquiet : (s.round ar pool g config).1 = 0
    · simp [hquiet]
    · simp only [hquiet, if_false, bne_iff_ne, ne_eq, not_false_eq_true, if_true,
        List.length_cons, List.getLastD_cons]
      exact ⟨congrArg (· + 1) hlength, hlast⟩

/-- The sequential iteration ends where its course ends. -/
theorem referenceRounds_eq_course (g : Graph) (config : Config R) (limit : Nat)
    (ranks : Array R) :
    referenceRounds ar g config limit ranks =
      (course (referenceRound ar g config) limit ranks).getLastD ranks := by
  induction limit generalizing ranks with
  | zero => rfl
  | succ limit ih =>
    simp only [referenceRounds, course, List.getLastD_cons]
    cases (referenceRound ar g config ranks).1 with
    | false => simp
    | true => exact ih _

/-- The ranks of a graph are the last ones of the course, or those of the beginning. -/
theorem pageRank_eq_course (pool : Pool) (g : Graph) (config : Config R) :
    (pageRank ar pool g config).activity.length = (pageRankCourse ar pool g config).length ∧
      (pageRank ar pool g config).ranks =
        (pageRankCourse ar pool g config).getLastD (State.new ar g.numNodes).ranks := by
  unfold pageRank pageRankCourse
  split
  next => exact ⟨rfl, rfl⟩
  next =>
    obtain ⟨hlength, hlast⟩ :=
      State.rounds_eq_course ar pool g config config.maxRounds (.new ar g.numNodes)
    refine ⟨?_, ?_⟩
    · rw [List.length_map]
      exact hlength
    · rw [List.getLastD_map]
      exact congrArg State.ranks hlast

/-- The ranks of the sequential iteration are the last ones of its course, or those of the
    beginning. -/
theorem referenceRanks_eq_course (g : Graph) (config : Config R) :
    referenceRanks ar g config =
      (referenceCourse ar g config).getLastD (State.new ar g.numNodes).ranks := by
  unfold referenceRanks referenceCourse
  split
  next hzero => simp [hzero, State.new]
  next hpos =>
    rw [referenceRounds_eq_course, State.new, Nat.max_eq_left (Nat.pos_of_ne_zero hpos)]

end SparseGraph.Rank
