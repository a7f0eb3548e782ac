import SparseGraph.ShortestPath.State

namespace SparseGraph.ShortestPath

/-!
# Histories of distances

A state may be reset and used for runs on one graph in any order. A run that cannot begin changes
nothing.

* `Event` — a reset or a run;
* `State.handle`, `State.afterAll` — a state after one event, and after several;
* `lastReset?` — the source of the last reset.
-/

/-- What can happen to a state. -/
inductive Event where
  | reset (source : Nat)
  | run (source shift : Nat)
deriving DecidableEq, Repr

/-- The state after an event. -/
def State.handle (g : Graph) (s : State) : Event → State
  | .reset source => s.reset source
  | .run source shift =>
    match s.run g source shift with
    | .ok (_, s) => s
    | .error _ => s

/-- The state after events in order. -/
def State.afterAll (g : Graph) (s : State) (events : List Event) : State :=
  events.foldl (State.handle g) s

/-- The source of the last reset. -/
def lastReset? (events : List Event) : Option Nat :=
  events.reverse.findSome? fun
    | .reset source => some source
    | .run .. => none

theorem State.afterAll_append (g : Graph) (s : State) (first second : List Event) :
    s.afterAll g (first ++ second) = (s.afterAll g first).afterAll g second :=
  List.foldl_append

end SparseGraph.ShortestPath
