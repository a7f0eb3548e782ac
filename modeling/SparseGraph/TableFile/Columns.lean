import SparseGraph.Graph.Table
import SparseGraph.TableFile.Schema

open SparseGraph.Graph (ColumnType)

namespace SparseGraph.TableFile

/-!
# The columns that are read

A group is read as one column of structures, of lists or of maps. A list holds one repeated column,
and a map holds one repeated group of a key and a value.

* `Node.columns` — whether a node gives a column;
* `ColumnFault` — why it gives none;
* `Leaf.held?` — what a column with values holds.
-/

/-- Why nodes give no columns. -/
inductive ColumnFault where
  /-- A list holds so many columns. -/
  | listOf (count : Nat)
  | singleInList
  | repeatedList
  | repeatedMap
  /-- A map holds so many columns. -/
  | mapOf (count : Nat)
  | singleInMap
  /-- An entry of a map holds so many columns. -/
  | entryOf (count : Nat)
  | repeatedKeys
  | repeatedValues
  | largeScale (scale : Int)
  | largePrecision (precision : Int)
  /-- The entries of a map hold no columns at all, or the root is a list or a map. -/
  | impossible
deriving DecidableEq, Repr

/-- The wording of a fault. -/
def ColumnFault.message : ColumnFault → String
  | .listOf count => s!"list type must have a single child, found {count}"
  | .singleInList => "List child must be repeated"
  | .repeatedList => "List type cannot be repeated"
  | .repeatedMap => "Map cannot be repeated"
  | .mapOf count => s!"Map field must have exactly one key_value child, found {count}"
  | .singleInMap => "Child of map field must be repeated"
  | .entryOf count => s!"Child of map field must have two children, found {count}"
  | .repeatedKeys => "Map keys cannot be repeated"
  | .repeatedValues => "Map values cannot be repeated"
  | .largeScale scale => s!"scale cannot be negative: {scale}"
  | .largePrecision precision => s!"precision cannot be negative: {precision}"
  | .impossible => "impossible columns"

namespace Leaf

/-- The greatest scale of a column of decimals. -/
def maxScale : Nat := 127

/-- The greatest precision of a column of decimals. -/
def maxPrecision : Nat := 255

/-- Whether it gives a column. -/
def checkColumn (l : Leaf) : Except ColumnFault Unit := do
  if l.labelled = some .decimal then
    if maxScale < l.scale then throw (.largeScale l.scale)
    if maxPrecision < l.precision then throw (.largePrecision l.precision)

end Leaf

/-- How often a node holds something in a row; the root does so once. -/
def Node.repetition : Node → Repetition
  | .leaf l => l.repetition
  | .group _ repetition _ _ => repetition.getD .required

mutual

/-- Whether a node gives a column: a group without values in it gives none, and a map needs keys and
    values. -/
def Node.gives : Node → Except ColumnFault Bool
  | .leaf l => do
    l.checkColumn
    return true
  | .group _ repetition (some .list) children => do
    match children with
    | [child] =>
      if child.repetition ≠ .repeated then throw .singleInList
      if repetition = some .repeated then throw .repeatedList
      match child with
      | .leaf l =>
        l.checkColumn
        return true
      | .group _ _ _ items => return (← allGive items).contains true
    | _ => throw (.listOf children.length)
  | .group _ repetition (some .map) children
  | .group _ repetition (some .mapKeyValue) children => do
    if repetition = some .repeated then throw .repeatedMap
    match children with
    | [child] =>
      if child.repetition ≠ .repeated then throw .singleInMap
      match child with
      | .leaf _ => throw .impossible
      | .group _ _ _ parts =>
        match parts.map Node.repetition with
        | [_] => return (← allGive parts).contains true
        | [key, value] =>
          if key = .repeated then throw .repeatedKeys
          if value = .repeated then throw .repeatedValues
          return !(← allGive parts).contains false
        | _ => throw (.entryOf parts.length)
    | _ => throw (.mapOf children.length)
  | .group _ _ _ children => return (← allGive children).contains true

/-- Which nodes give a column. -/
def allGive : List Node → Except ColumnFault (List Bool)
  | [] => return []
  | node :: nodes => return (← node.gives) :: (← allGive nodes)

end

/-- Whether the root gives columns. It is a structure of them. -/
def checkRoot (root : Node) : Except ColumnFault Unit := do
  match root with
  | .group _ _ (some .list) _ | .group _ _ (some .map) _ | .group _ _ (some .mapKeyValue) _ =>
    if ← root.gives then throw .impossible
  | _ => discard root.gives

/-! ### Columns with values -/

/-- What a column with values holds. -/
inductive Held where
  | words
  | other (type : ColumnType)
deriving DecidableEq, Repr

namespace Leaf

/-- What it holds, if it holds plain numbers. -/
def held? (l : Leaf) : Option Held :=
  if l.meaning.any (·.label?.isNone) then none
  else
    match l.type, l.labelled with
    | .int32, none | .int32, some .int32 => some (.other .int32)
    | .int32, some .uint32 => some .words
    | .int32, some .int8 => some (.other .int8)
    | .int32, some .int16 => some (.other .int16)
    | .int32, some .uint8 => some (.other .uint8)
    | .int32, some .uint16 => some (.other .uint16)
    | .int64, none | .int64, some .int64 => some (.other .int64)
    | .int64, some .uint64 => some (.other .uint64)
    | .float, none => some (.other .float32)
    | .double, none => some (.other .float64)
    | _, _ => none

/-- The greatest length of byte strings that decimals are read from. -/
def longestRead : Nat := 32

/-- Whether it holds decimals in byte strings that are too long to be read. -/
def isTooLong (l : Leaf) : Bool :=
  l.type == .fixedBytes && l.labelled == some .decimal && decide (longestRead < l.length)

end Leaf

end SparseGraph.TableFile
