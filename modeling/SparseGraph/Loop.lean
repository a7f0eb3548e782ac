namespace SparseGraph

/-!
# Parallel loops

A pool of workers runs a loop by cutting its items into contiguous pieces, each of which one worker
handles from left to right. The pieces form a binary tree, along which results are combined in
order.

* `LoopOptions` — how small pieces may be;
* `Pieces` — a loop cut into pieces;
* `Pieces.mapReduce`, `Pieces.forEachPush` — what a loop yields;
* `Pool` — a number of workers, and how it cuts a loop.
-/

/-- How small the pieces of a loop may be: `chunk` items, or else one piece for each worker. -/
structure LoopOptions where
  chunk : Nat
  steal : Bool
deriving DecidableEq, Repr

namespace LoopOptions

/-- Pieces of at least `chunk` items, taken by whoever is free. -/
def stealing (chunk : Nat) : LoopOptions :=
  ⟨chunk, true⟩

/-- One piece for each worker. -/
def partitioned : LoopOptions :=
  ⟨512, false⟩

/-- Pieces of at least 512 items. -/
def standard : LoopOptions :=
  stealing 512

instance : Inhabited LoopOptions := ⟨standard⟩

/-- The least number of items of a piece that is cut off. -/
def minPiece (o : LoopOptions) (workers length : Nat) : Nat :=
  if o.steal then max o.chunk 1 else max ((length + workers - 1) / workers) 1

end LoopOptions

/-- The items of a loop, cut into contiguous pieces. -/
inductive Pieces (α : Type) where
  | piece (items : List α)
  | join (left right : Pieces α)

namespace Pieces

variable {α β : Type}

/-- The items in order. -/
def toList : Pieces α → List α
  | piece items => items
  | join left right => left.toList ++ right.toList

/-- Whether a cut leaves at least `least` items on each of its sides. -/
def CutAtLeast (least : Nat) : Pieces α → Prop
  | piece _ => True
  | join left right =>
    least ≤ left.toList.length ∧ least ≤ right.toList.length ∧
      left.CutAtLeast least ∧ right.CutAtLeast least

/-- Map the items and combine the results, beginning each piece with `identity`. -/
def mapReduce (identity : β) (map : α → β) (combine : β → β → β) : Pieces α → β
  | piece items => items.foldl (fun acc a => combine acc (map a)) identity
  | join left right =>
    combine (left.mapReduce identity map combine) (right.mapReduce identity map combine)

/-- What the items push, in one buffer for each piece that pushes anything. -/
def forEachPush (op : α → List β) : Pieces α → List (List β)
  | piece items => [items.flatMap op].filter (!·.isEmpty)
  | join left right => left.forEachPush op ++ right.forEachPush op

/-- Cut items in halves, and the halves again while `splits` lasts, as long as each half keeps at
    least `least` items. -/
def halving (splits least : Nat) (items : List α) : Pieces α :=
  -- Each cut halves the number of cuts that are left to either side.
  if splits = 0 then piece items
  else if items.length / 2 < least then piece items
  else
    join (halving (splits / 2) least (items.take (items.length / 2)))
      (halving (splits / 2) least (items.drop (items.length / 2)))
termination_by splits
decreasing_by all_goals omega

end Pieces

/-- A pool of workers. -/
structure Pool where
  workers : Nat := 1
deriving DecidableEq, Repr

/-- How the pool cuts a loop while no worker runs out of work: it halves the loop until there is a
    piece for each worker. -/
def Pool.cut {α : Type} (pool : Pool) (o : LoopOptions) (items : List α) : Pieces α :=
  Pieces.halving pool.workers (o.minPiece pool.workers items.length) items

/-- The indices from `first` up to before `last`. -/
def indices (first last : Nat) : List Nat :=
  List.range' first (last - first)

end SparseGraph
