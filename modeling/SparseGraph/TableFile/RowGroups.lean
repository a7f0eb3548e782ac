import SparseGraph.TableFile.Schema

namespace SparseGraph.TableFile

/-!
# Groups of rows

The rows of a table come in groups, and a group has a chunk of each column with values.

* `Chunk`, `RowGroup` — chunks and groups of rows;
* `rowGroupOf` — the group that is told of, if it goes with the columns;
* `ChunkFault` — why it does not.
-/

/-- A chunk of a column: the type of its values, how its pages are compressed and where they are in
    the file. -/
structure Chunk where
  type : ValueType
  codec : Codec
  start : Int
  size : Int
deriving DecidableEq, Repr

/-- A group of rows. -/
structure RowGroup where
  chunks : List Chunk
  rows : Int
deriving DecidableEq, Repr

/-- Why chunks cannot be. -/
inductive ChunkFault where
  | unknownCode (fault : UnknownCode)
  /-- The group has so many chunks, and so many columns have values. -/
  | differentCounts (columns chunks : Nat)
  /-- A chunk is not told of. -/
  | missing
  | negativeNulls (count : Int)
  | shortMin
  | shortMax
  /-- The least or the greatest value has more bytes than there can be. -/
  | long
deriving DecidableEq, Repr

/-- The wording of a fault. -/
def ChunkFault.message : ChunkFault → String
  | .unknownCode fault => fault.message
  | .differentCounts columns chunks =>
    s!"Column count mismatch. Schema has {columns} columns while Row Group has {chunks}"
  | .missing => "Expected to have column metadata"
  | .negativeNulls count => s!"Statistics null count is negative {count}"
  | .shortMin => "Insufficient bytes to parse min statistic"
  | .shortMax => "Insufficient bytes to parse max statistic"
  | .long => "Too many bytes in a statistic"

/-- The least number of bytes of a value. -/
def ValueType.size : ValueType → Nat
  | .boolean => 1
  | .int32 | .float => 4
  | .int64 | .double => 8
  | .int96 => 12
  | .bytes | .fixedBytes => 0

/-- Whether statistics are those of values of a type. The older fields count if both of the others
    are missing. -/
def Statistics.check (s : Statistics) (type : ValueType) : Except ChunkFault Unit := do
  let nulls := s.nulls.getD 0
  if nulls < 0 then throw (.negativeNulls nulls)
  let (min, max) := if s.min.isNone ∧ s.max.isNone then (s.olderMin, s.olderMax) else (s.min, s.max)
  if min.any (·.length < type.size) then throw .shortMin
  if max.any (·.length < type.size) then throw .shortMax
  if type = .int96 ∧ (min.toList ++ max.toList).any (type.size < ·.length) then throw .long

/-- Whether numbers stand for a kind of pages and an encoding. -/
def ToldPageCount.check (t : ToldPageCount) : Except UnknownCode Unit := do
  let _ ← decode pageKinds t.kind
  let _ ← decode TableFile.encodings t.encoding

/-- A chunk that is told of, which starts with its dictionary if it has one. -/
def chunkOf : Option ToldChunk → Except ChunkFault Chunk
  | none => .error .missing
  | some t => do
    let type ← (decode valueTypes t.type).mapError .unknownCode
    t.encodings.forM fun code => discard ((decode encodings code).mapError .unknownCode)
    let codec ← (decode codecs t.codec).mapError .unknownCode
    t.statistics.forM (·.check type)
    t.pageCounts.forM fun count => count.check.mapError .unknownCode
    return ⟨type, codec, t.dictionaryStart.getD t.dataStart, t.size⟩

/-- A group of rows that is told of, with a chunk of each of so many columns. -/
def rowGroupOf (columns : Nat) (t : ToldRowGroup) : Except ChunkFault RowGroup :=
  if t.chunks.length ≠ columns then .error (.differentCounts columns t.chunks.length)
  else do return ⟨← t.chunks.mapM chunkOf, t.rows⟩

end SparseGraph.TableFile
