import SparseGraph.Loop

namespace SparseGraph

/-!
# Cuts and orders of visits

A pool may cut a loop in many ways, depending on which workers are free. Each piece is visited from
left to right, but workers handle their pieces at the same time, so that the visits to different
pieces may be interleaved in any way.

* `Pieces.leaves` — the pieces from left to right;
* `Pool.Cuts` — the ways in which a pool may cut a loop;
* `Interleaving` — two lists merged, each in its own order;
* `Pieces.Visits` — an order in which the items of a loop may be visited;
* `Pieces.visits_toList` — they may be visited from left to right;
* `Pieces.Visits.perm` — whatever the order, every item is visited as often as it stands in the
  loop.
-/

/-- The pieces from left to right. -/
def Pieces.leaves {α : Type} : Pieces α → List (List α)
  | piece items => [items]
  | join left right => left.leaves ++ right.leaves

/-- The ways in which a pool may cut a loop: into any contiguous pieces that are not too small. -/
structure Pool.Cuts {α : Type} (pool : Pool) (o : LoopOptions) (items : List α) (p : Pieces α) :
    Prop where
  toList_eq : p.toList = items
  cutAtLeast : p.CutAtLeast (o.minPiece pool.workers items.length)

/-- The third list has the items of the first two, those of each in their order. -/
inductive Interleaving {α : Type} : List α → List α → List α → Prop
  | done : Interleaving [] [] []
  | left {a : α} {as bs cs : List α} (h : Interleaving as bs cs) : Interleaving (a :: as) bs (a :: cs)
  | right {b : α} {as bs cs : List α} (h : Interleaving as bs cs) : Interleaving as (b :: bs) (b :: cs)

/-- An order in which the items may be visited. -/
inductive Pieces.Visits {α : Type} : Pieces α → List α → Prop
  | piece {items : List α} : Visits (.piece items) items
  | join {left right : Pieces α} {as bs cs : List α} (hl : left.Visits as) (hr : right.Visits bs)
      (h : Interleaving as bs cs) : Visits (.join left right) cs

theorem Interleaving.perm {α : Type} {as bs cs : List α} (h : Interleaving as bs cs) :
    cs.Perm (as ++ bs) := by
  induction h with
  | done => exact .refl _
  | left _ ih => exact ih.cons _
  | right _ ih => exact (ih.cons _).trans List.perm_middle.symm

/-- One list may be gone through before the other. -/
theorem interleaving_append {α : Type} (as bs : List α) : Interleaving as bs (as ++ bs) := by
  induction as with
  | nil =>
    induction bs with
    | nil => exact .done
    | cons b bs ih => exact .right ih
  | cons a as ih => exact .left ih

/-- Every loop has an order of visits, since its pieces may be gone through from left to right. -/
theorem Pieces.visits_toList {α : Type} (p : Pieces α) : p.Visits p.toList := by
  induction p with
  | piece items => exact .piece
  | join left right ihl ihr => exact .join ihl ihr (interleaving_append _ _)

/-- Whatever the order, every item is visited as often as it stands in the loop. -/
theorem Pieces.Visits.perm {α : Type} {p : Pieces α} {order : List α} (h : p.Visits order) :
    order.Perm p.toList := by
  induction h with
  | piece => exact .refl _
  | join _ _ hi ihl ihr => exact hi.perm.trans (ihl.append ihr)

end SparseGraph
