import SparseGraph.TableFile.Bytes
import SparseGraph.TableFile.RowGroups

open SparseGraph.Compact

namespace SparseGraph.TableFile

/-!
# Pages

The values of a chunk are in pages, one behind another, and each tells of itself first. Only pages
in the first layout with values one behind another are read, and only if they are not compressed.

* `Supply` — the values up to where reading stops, and why it stops there;
* `PageFault` — why reading stops;
* `pageSupply`, `pagesSupply`, `chunkSupply` — the values of a page, of pages and of a chunk.
-/

/-- Why reading stops. -/
inductive PageFault where
  | untold (fault : Compact.Fault)
  /-- The sizes of a page do not fit into the chunk. -/
  | sizes
  /-- The page has so many bytes, and so many are left. -/
  | short (size left : Nat)
  /-- A page of a kind does not tell of itself what pages of the kind do. -/
  | missing (kind : PageKind)
  | unknownCode (fault : UnknownCode)
  | statistics (fault : ChunkFault)
  /-- There are fewer values than told. -/
  | ended
  | noCodec
  /-- Columns do not have the same number of values. -/
  | outOfStep (expected got : Nat)
  /-- A chunk is before the start of the file, or a page is of a kind that cannot be. -/
  | impossible
  /-- Values are there, but not in a form that is read. -/
  | unread
deriving DecidableEq, Repr

/-- What messages call the pages of a kind. -/
def PageKind.title : PageKind → String
  | .data => "V1 data"
  | .index => "index"
  | .dictionary => "dictionary"
  | .dataLater => "V2 data"

/-- The wording of a fault. -/
def PageFault.message : PageFault → String
  | .untold fault => s!"External: {fault.message}"
  | .sizes => "EOF: Invalid page header"
  | .short size left => s!"EOF: Expected to read {size} bytes of page, read only {left}"
  | .missing kind => s!"Parquet error: Missing {kind.title} page header"
  | .unknownCode fault => s!"Parquet error: {fault.message}"
  | .statistics fault => s!"Parquet error: {fault.message}"
  | .ended => "EOF: Not enough bytes to decode"
  | .noCodec => "NYI: The codec type LZO is not supported yet"
  | .outOfStep expected got =>
    s!"Parquet error: StructArrayReader out of sync in read_records, expected {expected} read, " ++
      s!"got {got}"
  | .impossible => "impossible page"
  | .unread => "Parquet error: Could not read the table"

/-- Values, each in its bytes, and why there are no more behind them. If nothing stopped reading,
    all of them are there. -/
structure Supply where
  values : List (List UInt8)
  stop? : Option PageFault := none
deriving DecidableEq, Repr

/-- No values, as reading stops at once. -/
def Supply.stopped (fault : PageFault) : Supply :=
  ⟨[], some fault⟩

/-- One supply behind another, unless reading stops before. -/
def Supply.followedBy (s : Supply) (next : Supply) : Supply :=
  match s.stop? with
  | some _ => s
  | none => { next with values := s.values ++ next.values }

/-- Values of `width` bytes one behind another. Negative counts wrap around. -/
def plainSupply (width : Nat) (count : Int) (bytes : List UInt8) : Supply :=
  let count := (count.emod (1 <<< 32)).toNat
  let present := bytes.length / width
  if present < count then ⟨groupsOf width present bytes, some .ended⟩
  else ⟨groupsOf width count bytes, none⟩

/-- Whether what is told of data can be, and the encoding of the values. -/
def ToldData.encoding? (t : ToldData) (type : ValueType) : Except PageFault Encoding := do
  let encoding ← (decode encodings t.encoding).mapError .unknownCode
  let _ ← (decode encodings t.definitions).mapError .unknownCode
  let _ ← (decode encodings t.repetitions).mapError .unknownCode
  t.statistics.forM fun s => (s.check type).mapError .statistics
  return encoding

/-- The values of `width` bytes in the page that is told of. The statistics are those of a type. A
    dictionary cannot be missing. -/
def pageSupply (width : Nat) (type : ValueType) (t : ToldPage) (bytes : List UInt8) : Supply :=
  match pageKinds.words.lookup t.kind with
  | some .index => ⟨[], none⟩
  | some .data =>
    match t.data with
    | none => .stopped (.missing .data)
    | some data =>
      match data.encoding? type with
      | .error fault => .stopped fault
      | .ok .plain => plainSupply width data.count bytes
      | .ok .dictionary | .ok .plainDictionary => .stopped .impossible
      | .ok _ => .stopped .unread
  | some .dictionary => .stopped (if t.isDictionary then .unread else .missing .dictionary)
  | some .dataLater => .stopped (if t.isLater then .unread else .missing .dataLater)
  | none => .stopped .impossible

/-- The values in pages that take `size` bytes. Each takes a byte at least, so that `fuel` bounds
    their count. -/
def pagesSupply (width : Nat) (type : ValueType) : Nat → Nat → List UInt8 → Supply
  | _, 0, _ => ⟨[], none⟩
  | 0, _, _ => .stopped .unread
  | fuel + 1, size, bytes =>
    match readPage.run ⟨bytes, none⟩ with
    | .error fault => .stopped (.untold (if fault = .impossible then .ended else fault))
    | .ok (t, behind) =>
      let headSize := bytes.length - behind.bytes.length
      let pageSize := t.size.toNat
      if size < headSize + pageSize ∨ t.size < 0 ∨ t.fullSize < 0 then .stopped .sizes
      else if behind.bytes.length < pageSize ∧ t.kind ≠ 1 then
        .stopped (.short pageSize behind.bytes.length)
      else
        (pageSupply width type t (behind.bytes.take pageSize)).followedBy
          (pagesSupply width type fuel (size - headSize - pageSize)
            (behind.bytes.drop pageSize))

/-- The values in a chunk of the file with these bytes; `width` is missing if values of the column
    are not read. -/
def chunkSupply (file : List UInt8) (width : Option Nat) (chunk : Chunk) : Supply :=
  if chunk.codec = .lzo then .stopped .noCodec
  else if chunk.start < 0 ∨ chunk.size < 0 then .stopped .impossible
  else if chunk.size = 0 then ⟨[], none⟩
  else
    match width with
    | none => .stopped .unread
    | some width =>
      if chunk.codec ≠ .uncompressed then .stopped .unread
      else
        pagesSupply width chunk.type (file.length + 1) chunk.size.toNat
          (file.drop chunk.start.toNat)

end SparseGraph.TableFile
