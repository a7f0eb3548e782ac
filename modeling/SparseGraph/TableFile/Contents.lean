import SparseGraph.TableFile.Fault

open SparseGraph.Graph (Batch Column Table)

namespace SparseGraph.TableFile

/-!
# The table in a file

A table file ends with the metadata of the table, four bytes with their length and a mark of four
letters. The rows are where the metadata tell, and are read in batches.

* `metadataOf` — the metadata in bytes;
* `Layout`, `layoutOf` — the columns and the groups of rows that they tell of;
* `batchesOf` — the rows, up to where reading stops;
* `Contents`, `contentsOf` — the table, and why reading stopped.
-/

/-! ### The end of the file -/

/-- How many bytes the length of the metadata and the mark take. -/
def endSize : Nat := 8

/-- The mark of a table file. -/
def plainMark : List UInt8 := [0x50, 0x41, 0x52, 0x31]

/-- The mark of a table file with encrypted metadata. -/
def encryptedMark : List UInt8 := [0x50, 0x41, 0x52, 0x45]

/-- The metadata in the bytes of a table file. -/
def metadataOf (bytes : List UInt8) : Except Fault ToldTable :=
  let size := bytes.length
  let front := bytes.take (size - endSize)
  let tail := bytes.drop (size - endSize)
  let mark := tail.drop 4
  let needed := littleEndian (tail.take 4) + endSize
  if size < endSize then .error (.tooSmall size endSize)
  else if mark ≠ plainMark ∧ mark ≠ encryptedMark then .error .footer
  else if size < needed then .error (.tooSmall size needed)
  else if mark = encryptedMark then .error .encrypted
  else (readMetadata (front.drop (size - needed))).mapError .metadata

/-! ### Columns and groups of rows -/

/-- The columns and the groups of rows of a table. -/
structure Layout where
  root : Node
  rowGroups : List RowGroup

/-- The columns and the groups of rows that are told of. -/
def layoutOf (told : ToldTable) : Except Fault Layout := do
  let root ← (schemaOf told.columns).mapError .schema
  unless allRepeat root.children do throw .noRepetition
  let count := root.leaves.length
  let rowGroups ← told.rowGroups.mapM fun t => (rowGroupOf count t).mapError .chunk
  if told.orders.any (· ≠ count) then throw .orders
  return ⟨root, rowGroups⟩

/-- The text under a name. Of several texts it is the last one. -/
def ToldTable.entry? (told : ToldTable) (key : String) : Option String :=
  told.entries.reverse.findSome? fun (name, value) => if name = key then value else none

/-- Whether the embedded schema and the columns can be read. -/
def checkColumns (told : ToldTable) (root : Node) : Except Fault Unit := do
  match told.entry? embeddedKey with
  | some text =>
    match embeddedFault? text with
    | some fault => throw (.embedded fault)
    | none => throw .unread
  | none => (checkRoot root).mapError .column

/-! ### Rows -/

/-- A column that is being read. -/
structure Source where
  name : String
  /-- What it holds, if it is read at all. -/
  held : Option Held
  supply : Supply

/-- The columns of nodes: those in groups are not read. -/
def topLeaves : List Node → List (Leaf × Option Held)
  | [] => []
  | .leaf l :: nodes => (l, if l.repetition = .required then l.held? else none) :: topLeaves nodes
  | node :: nodes => node.leaves.map (·, none) ++ topLeaves nodes

/-- The columns of a table in a file with these bytes. -/
def Layout.sources (t : Layout) (file : List UInt8) : List Source :=
  (topLeaves t.root.children).mapIdx fun i (l, held) =>
    let chunks := t.rowGroups.filterMap (·.chunks[i]?)
    let supplies := chunks.map (chunkSupply file (held.map fun _ => l.type.size))
    ⟨l.name, held, supplies.foldr Supply.followedBy ⟨[], none⟩⟩

/-- The number of rows in all groups. Negative numbers wrap around. -/
def Layout.rows (t : Layout) : Nat :=
  (t.rowGroups.map fun group => (group.rows.emod (1 <<< 64)).toNat).foldl (· + ·) 0

/-- What a column holds in its next rows. -/
def Source.column (s : Source) (count : Nat) : Column :=
  let values := s.supply.values.take count
  match s.held with
  | some .words => ⟨s.name, .words (values.map fun bytes => UInt32.ofNat (littleEndian bytes))⟩
  | some (.other type) => ⟨s.name, .other type values.length⟩
  | none => ⟨s.name, .other .utf8 values.length⟩

/-- How many of the next `size` rows a column has, if it has as many as those before it. -/
def Source.next (size : Nat) (expected : Option Nat) (s : Source) :
    Except PageFault (Option Nat) := do
  let got := min size s.supply.values.length
  if got < size then s.supply.stop?.forM throw
  if expected.any (· ≠ got) then throw (.outOfStep (expected.getD 0) got)
  return some got

/-- The column behind its next rows. -/
def Source.drop (s : Source) (count : Nat) : Source :=
  { s with supply := { s.supply with values := s.supply.values.drop count } }

/-- A batch of columns of one size. -/
def batchOf? (rows : Nat) (columns : List Column) : Option Batch :=
  if h : ∀ c ∈ columns, c.data.size = rows then some ⟨rows, columns, h⟩ else none

/-- The rows of columns in batches of `size`, and why reading stops. Each batch has a row at least,
    so that `fuel` bounds their count. -/
def batchesOf (size : Nat) : Nat → List Source → List Batch × Option PageFault
  | 0, _ => ([], none)
  | fuel + 1, sources =>
    match sources.foldlM (Source.next size) none with
    | .error fault => ([], some fault)
    | .ok count =>
      let rows := count.getD 0
      match if rows = 0 then none else batchOf? rows (sources.map (·.column rows)) with
      | none => ([], none)
      | some batch =>
        let (batches, fault?) := batchesOf size fuel (sources.map (·.drop rows))
        (batch :: batches, fault?)

/-! ### The table -/

/-- A table as far as it is read, and why reading stopped before its end, if it did. -/
structure Contents where
  table : Table
  fault? : Option Fault := none

/-- The most rows of a batch. -/
def batchSize : Nat := 1024

/-- The rows of a table in a file with these bytes. Rows without any column are rows all the same.
    The number of rows that is told of the whole table bounds a batch too. -/
def Layout.read (t : Layout) (rows : Int) (file : List UInt8) : List Batch × Option Fault :=
  let size := min batchSize (rows.emod (1 <<< 64)).toNat
  match t.root.leaves.find? Leaf.isTooLong with
  | some l => ([], some (.longDecimals l.length))
  | none =>
    if Text.maxLong < t.rows then ([], some .tooManyRows)
    else if size = 0 then ([], none)
    else if t.root.leaves.isEmpty then
      ((if t.rows = 0 then none else batchOf? (min size t.rows) []).toList, none)
    else
      let sources := t.sources file
      let most := (sources.map (·.supply.values.length)).foldl max 0
      let (batches, fault?) := batchesOf size (most + 1) sources
      (batches, fault?.map .page)

/-- The table in a file with these bytes. -/
def contentsOf (file : List UInt8) : Except Fault Contents := do
  let told ← metadataOf file
  let layout ← layoutOf told
  checkColumns told layout.root
  let (batches, fault?) := layout.read told.rows file
  return ⟨⟨told.entries, batches⟩, fault?⟩

example : metadataOf [] = .error (.tooSmall 0 8) := rfl

/-- A table without columns and rows, of which the metadata take 20 bytes. -/
example :
    (contentsOf
      ([0x15, 0x04, 0x19, 0x1C, 0x48, 0x06, 0x73, 0x63, 0x68, 0x65, 0x6D, 0x61, 0x15, 0x00, 0x00,
        0x16, 0x00, 0x19, 0x0C, 0x00, 0x14, 0x00, 0x00, 0x00] ++
        plainMark)).toOption.map (·.table.batches) = some [] := by
  decide +kernel

end SparseGraph.TableFile
