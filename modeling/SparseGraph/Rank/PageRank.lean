import SparseGraph.Graph.Basic
import SparseGraph.Loop
import SparseGraph.Rank.Arithmetic

namespace SparseGraph.Rank

/-!
# Ranks of vertices

The rank of a vertex is passed on in rounds. In each round a vertex gives equal shares of its rank
to its targets; what dead ends hold is given to all vertices alike; and every vertex gets a fixed
part on top. Rounds go on up to a limit, or until one in which no rank moved by more than a bound.

* `Config` — damping, bound and limit;
* `State` — the present ranks, and the buffer in which shares are collected;
* `State.round` — one round;
* `State.run` — rounds up to the limit, with the number of vertices that moved in each;
* `pageRank` — the ranks of a graph;
* `referenceRanks` — the same ranks, computed in one sequence without a buffer that is kept.
-/

/-- The part of a rank that is passed on, the bound on movements, and the limit on rounds. -/
structure Config (R : Type) where
  damping : R
  epsilon : R
  maxRounds : Nat

/-- The usual configuration: 0.85 is passed on, `10 ^ -6` is no movement, ten rounds. -/
def standard : Config Float32 where
  damping := Float32.ofBits 0x3f59999a
  epsilon := Float32.ofBits 0x358637bd
  maxRounds := 10

/-- The present ranks, and the buffer in which shares are collected. -/
structure State (R : Type) where
  ranks : Array R
  buffer : Array R

variable {R W : Type} (ar : Arithmetic R W)

/-- The fixed part that every one of `n` vertices gets. -/
def teleport (config : Config R) (n : Nat) : R :=
  ar.div (ar.sub ar.one config.damping) (ar.ofNat n)

/-- The rank of a vertex. -/
def rankOf (ranks : Array R) (v : Nat) : R :=
  ranks.getD v ar.zero

/-- Give the share of vertex `v` to its targets. -/
def scatter (g : Graph) (ranks buffer : Array R) (v : Nat) : Array R :=
  if g.degree v = 0 then buffer
  else
    let share := ar.div (rankOf ar ranks v) (ar.ofNat (g.degree v))
    (g.arcs v).foldl (fun b a => b.modify a.target.toNat (ar.add · share)) buffer

/-- What vertex `v` adds to the mass of dead ends. -/
def deadEndMass (g : Graph) (ranks : Array R) (v : Nat) : W :=
  if g.degree v = 0 then ar.widen (rankOf ar ranks v) else ar.sumZero

/-- The rank of a vertex for which `collected` was collected. -/
def updatedRank (config : Config R) (n : Nat) (deadEnds : R) (collected : R) : R :=
  ar.add (teleport ar config n) (ar.mul config.damping (ar.add collected deadEnds))

namespace State

/-- All of `n` vertices have the same rank, and nothing is collected. -/
def new (n : Nat) : State R :=
  ⟨Array.replicate n (ar.div ar.one (ar.ofNat (max n 1))), Array.replicate n ar.zero⟩

/-- Begin anew. -/
def reset (s : State R) : State R :=
  new ar s.ranks.size

/-- One round: the number of vertices that moved, and the state after it. -/
def round (pool : Pool) (g : Graph) (config : Config R) (s : State R) : Nat × State R :=
  let n := g.numNodes
  let vertices := indices 0 n
  let collected := vertices.foldl (scatter ar g s.ranks) s.buffer
  let sum := (pool.cut .standard vertices).mapReduce ar.sumZero (deadEndMass ar g s.ranks) ar.sumAdd
  let ranks := collected.map (updatedRank ar config n (ar.share sum n))
  let moved (v : Nat) : Nat :=
    if ar.differsBy (rankOf ar ranks v) (rankOf ar s.ranks v) config.epsilon then 1 else 0
  let active := (pool.cut .partitioned vertices).mapReduce 0 moved (· + ·)
  -- The old ranks are cleared and become the buffer of the next round.
  (active, ⟨ranks, s.ranks.map fun _ => ar.zero⟩)

/-- At most `limit` rounds: how many vertices moved in each, and the state after them. -/
def rounds (pool : Pool) (g : Graph) (config : Config R) : Nat → State R → List Nat × State R
  | 0, s => ([], s)
  | limit + 1, s =>
    let (active, s) := s.round ar pool g config
    if active = 0 then ([active], s)
    else
      let (activity, s) := rounds pool g config limit s
      (active :: activity, s)

/-- One run. It needs ranks for just the vertices of the graph. -/
def run? (pool : Pool) (g : Graph) (config : Config R) (s : State R) :
    Option (List Nat × State R) :=
  if s.ranks.size ≠ g.numNodes then none
  else if g.numNodes = 0 then some ([], s)
  else some (s.rounds ar pool g config config.maxRounds)

end State

/-- Ranks, and how many vertices moved in each round. -/
structure Result (R : Type) where
  ranks : Array R
  activity : List Nat

/-- The ranks of the vertices of a graph. -/
def pageRank (pool : Pool) (g : Graph) (config : Config R) : Result R :=
  let s : State R := State.new ar g.numNodes
  if g.numNodes = 0 then ⟨s.ranks, []⟩
  else
    let (activity, s) := s.rounds ar pool g config config.maxRounds
    ⟨s.ranks, activity⟩

/-! ### The sequential iteration -/

/-- What the vertices have given so far: to their targets, and as dead ends. -/
structure Given (R W : Type) where
  collected : Array R
  deadEnds : W

/-- Let vertex `v` give its rank to its targets, or as a dead end. -/
def give (g : Graph) (ranks : Array R) (s : Given R W) (v : Nat) : Given R W :=
  if g.start v < g.start (v + 1) then
    let share := ar.div (rankOf ar ranks v) (ar.ofNat (g.start (v + 1) - g.start v))
    { s with collected :=
        (g.arcs v).foldl (fun c a => c.modify a.target.toNat (ar.add · share)) s.collected }
  else { s with deadEnds := ar.sumAdd s.deadEnds (ar.widen (rankOf ar ranks v)) }

/-- One round in sequence: whether any vertex moved, and the ranks after it. -/
def referenceRound (g : Graph) (config : Config R) (ranks : Array R) : Bool × Array R :=
  let n := g.numNodes
  let given := (List.range n).foldl (give ar g ranks) ⟨Array.replicate n ar.zero, ar.sumZero⟩
  let next := given.collected.map (updatedRank ar config n (ar.share given.deadEnds n))
  let moved := (next.toList.zip ranks.toList).any fun (new, old) =>
    ar.differsBy new old config.epsilon
  (moved, next)

/-- At most `limit` rounds in sequence. -/
def referenceRounds (g : Graph) (config : Config R) : Nat → Array R → Array R
  | 0, ranks => ranks
  | limit + 1, ranks =>
    let (moved, ranks) := referenceRound ar g config ranks
    if moved then referenceRounds g config limit ranks else ranks

/-- The ranks of the vertices of a graph, computed in one sequence. -/
def referenceRanks (g : Graph) (config : Config R) : Array R :=
  if g.numNodes = 0 then #[]
  else
    referenceRounds ar g config config.maxRounds
      (Array.replicate g.numNodes (ar.div ar.one (ar.ofNat g.numNodes)))

end SparseGraph.Rank
