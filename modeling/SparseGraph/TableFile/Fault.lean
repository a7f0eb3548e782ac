import SparseGraph.TableFile.Columns
import SparseGraph.TableFile.Embedded
import SparseGraph.TableFile.Pages

namespace SparseGraph.TableFile

/-!
# Why a file holds no table

* `Fault` — what is wrong with the file;
* `Fault.message` — the wording;
* `Fault.isAbrupt` — whether a program breaks off at it.
-/

/-- Why a file holds no table. -/
inductive Fault where
  /-- The file of this size cannot hold the end of a table, or the metadata that it tells of. -/
  | tooSmall (size needed : Nat)
  | footer
  /-- The metadata are encrypted. -/
  | encrypted
  | metadata (fault : Compact.Fault)
  | schema (fault : SchemaFault)
  /-- A group of columns has no repetition. -/
  | noRepetition
  | chunk (fault : ChunkFault)
  /-- Orders are told, but not of each column. -/
  | orders
  | embedded (fault : EmbeddedFault)
  | column (fault : ColumnFault)
  /-- Decimals are in byte strings of this length. -/
  | longDecimals (length : Int)
  /-- There are more rows than can be counted. -/
  | tooManyRows
  | page (fault : PageFault)
  /-- The metadata are there, but the file is not kept as a table. -/
  | unread
deriving DecidableEq, Repr

/-- The wording of a fault. -/
def Fault.message : Fault → String
  | .tooSmall size needed => s!"EOF: Parquet file too small. Size is {size} but need {needed}"
  | .footer => "Parquet error: Invalid Parquet file. Corrupt footer"
  | .encrypted =>
    "Parquet error: Parquet file has an encrypted footer but the encryption feature is disabled"
  | .metadata fault => s!"Parquet error: Could not parse metadata: {fault.message}"
  | .schema fault => s!"Parquet error: {fault.message}"
  | .noRepetition => "Parquet error: a group has no repetition"
  | .chunk fault => s!"Parquet error: {fault.message}"
  | .orders => "Parquet error: Column order length mismatch"
  | .embedded fault => s!"Arrow: {fault.message}"
  | .column fault => s!"Arrow: {fault.message}"
  | .longDecimals length =>
    s!"Parquet error: decimal 256 type too large, must be less than 32 bytes, got {length}"
  | .tooManyRows => "Parquet error: too many rows"
  | .page fault => s!"Parquet argument error: {fault.message}"
  | .unread => "Parquet error: Could not read the table"

/-- Whether a program breaks off at the fault, instead of judging the file. -/
def Fault.isAbrupt : Fault → Bool
  | .metadata .impossible | .noRepetition | .chunk .long | .column .impossible | .tooManyRows
  | .page .impossible | .page (.statistics .long) => true
  | _ => false

end SparseGraph.TableFile
