import SparseGraph.Worklist

namespace SparseGraph

/-!
# Plain backlogs

The items of a worklist can also be kept in one list, in the order in which they came, and sorted
out only when a bucket is taken.

* `Backlog` — pending items in one list;
* `Backlog.popMin?` — take out all items of the least number;
* `Backlog.serve` — one operation as a request;
* `replies`, `stateAfter` — what a sequence of requests is told, and the state after it.
-/

/-- Pending items in the order in which they came. -/
structure Backlog (α : Type) where
  items : List α

namespace Backlog

variable {α : Type}

/-- Nothing is pending. -/
def empty : Backlog α :=
  ⟨[]⟩

/-- All items with the least number, in the order in which they came, and what remains without
    them. -/
def popMin? (index : α → Nat) (b : Backlog α) : Option (Nat × List α × Backlog α) :=
  (b.items.map index).min?.map fun least =>
    (least, b.items.filter (index · == least), ⟨b.items.filter (index · != least)⟩)

/-- Do what is requested. -/
def serve (index : α → Nat) (b : Backlog α) (request : Request α) : Reply α × Backlog α :=
  let (taken, b) : Option (Nat × List α) × Backlog α :=
    match request with
    | .push item => (none, ⟨b.items ++ [item]⟩)
    | .extend items => (none, ⟨b.items ++ items⟩)
    | .popMin =>
      match b.popMin? index with
      | none => (none, b)
      | some (least, items, rest) => (some (least, items), rest)
  (⟨taken, b.items.length, b.items.isEmpty⟩, b)

end Backlog

/-- What a sequence of requests is told, one after another. -/
def replies {State α : Type} (serve : State → Request α → Reply α × State) :
    State → List (Request α) → List (Reply α)
  | _, [] => []
  | s, request :: rest =>
    let (reply, s) := serve s request
    reply :: replies serve s rest

/-- The state after a sequence of requests. -/
def stateAfter {State α : Type} (serve : State → Request α → Reply α × State) (s : State)
    (requests : List (Request α)) : State :=
  requests.foldl (fun s request => (serve s request).2) s

/-- The items that a request files. -/
def Request.filed {α : Type} : Request α → List α
  | .push item => [item]
  | .extend items => items
  | .popMin => []

/-- The items that a reply hands out. -/
def Reply.handedOut {α : Type} (r : Reply α) : List α :=
  (r.taken.map Prod.snd).getD []

end SparseGraph
