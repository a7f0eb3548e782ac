import SparseGraph.Rank.PageRank

namespace SparseGraph.Rank

/-!
# Histories of ranks

Ranks may be kept, reset, and used for runs in any order: on several graphs of one size, with other
configurations, and on other pools.

* `Event` — a reset or a run;
* `State.handle`, `State.afterAll` — a state after one event, and after several;
* `ranksAfter` — what new ranks have become after events.
-/

/-- What can happen to ranks that are kept. -/
inductive Event (R : Type) where
  | reset
  | run (pool : Pool) (g : Graph) (config : Config R)

variable {R W : Type} (ar : Arithmetic R W)

/-- The state after an event. A run on a graph of another size changes nothing. -/
def State.handle (s : State R) : Event R → State R
  | .reset => s.reset ar
  | .run pool g config =>
    match s.run? ar pool g config with
    | some (_, s) => s
    | none => s

/-- The state after events in order. -/
def State.afterAll (s : State R) (events : List (Event R)) : State R :=
  events.foldl (State.handle ar) s

/-- What new ranks of `n` vertices have become after events in order. -/
def ranksAfter (n : Nat) (events : List (Event R)) : State R :=
  (State.new ar n).afterAll ar events

theorem ranksAfter_append (n : Nat) (first second : List (Event R)) :
    ranksAfter ar n (first ++ second) = (ranksAfter ar n first).afterAll ar second :=
  List.foldl_append

end SparseGraph.Rank
