import SparseGraph.Compact.Reader
import SparseGraph.TableFile.Meaning

open SparseGraph.Compact

namespace SparseGraph.TableFile

/-!
# The metadata of a table, as they are told

* `ToldColumn`, `ToldChunk`, `ToldRowGroup`, `ToldTable` — what the metadata tell, not yet judged;
* `readMetadata` — the metadata, of which fields without interest are only passed;
* `ToldPage`, `readPage` — what a page tells of itself.
-/

/-- What is told of a column, or of columns that belong together. -/
structure ToldColumn where
  name : String := ""
  type : Option Int := none
  length : Option Int := none
  repetition : Option Int := none
  children : Option Int := none
  label : Option Int := none
  scale : Option Int := none
  precision : Option Int := none
  meaning : Option Meaning := none
deriving DecidableEq, Repr

/-- What is told of the values in a chunk or a page. The least and the greatest of them may stand in
    older fields. -/
structure Statistics where
  min : Option (List UInt8) := none
  max : Option (List UInt8) := none
  olderMin : Option (List UInt8) := none
  olderMax : Option (List UInt8) := none
  nulls : Option Int := none
deriving DecidableEq, Repr

/-- What is told of how many pages are of one kind and encoding. -/
structure ToldPageCount where
  kind : Int := 0
  encoding : Int := 0
deriving DecidableEq, Repr

/-- What is told of a chunk of a column. -/
structure ToldChunk where
  type : Int := 0
  encodings : List Int := []
  codec : Int := 0
  size : Int := 0
  dataStart : Int := 0
  dictionaryStart : Option Int := none
  statistics : Option Statistics := none
  pageCounts : List ToldPageCount := []
deriving DecidableEq, Repr

/-- What is told of a group of rows: a chunk of each column, if it is told of, and their number. -/
structure ToldRowGroup where
  chunks : List (Option ToldChunk) := []
  rows : Int := 0
deriving DecidableEq, Repr

/-- What is told of a table. -/
structure ToldTable where
  columns : List ToldColumn := []
  rows : Int := 0
  rowGroups : List ToldRowGroup := []
  /-- Anything else, by name. -/
  entries : List (String × Option String) := []
  /-- For how many columns an order is told. -/
  orders : Option Nat := none
deriving DecidableEq, Repr

/-! ### Meanings -/

/-- A record of which no field is known. -/
def readEmpty : Reader Unit :=
  readRecord [] () fun _ => none

/-- A choice without anything more to tell. -/
def bare {α : Type} (value : α) : Option (Reader α) :=
  some do
    readEmpty
    return value

/-- A unit of times. -/
def readTimeUnit : Reader TimeUnit :=
  readChoice fun
    | 1 => bare .millis
    | 2 => bare .micros
    | 3 => bare .nanos
    | _ => none

/-- The scale and the precision of decimals. -/
def readDecimal : Reader (Int × Int) :=
  readRecord [1, 2] (0, 0) fun
    | 1 => put (readSigned 32) fun (_, precision) scale => (scale, precision)
    | 2 => put (readSigned 32) fun (scale, _) precision => (scale, precision)
    | _ => none

/-- Whether times are in UTC, and their unit. -/
def readTime : Reader (Bool × TimeUnit) :=
  readRecord [1, 2] (false, .millis) fun
    | 1 => put readFlag fun (_, measure) inUtc => (inUtc, measure)
    | 2 => put readTimeUnit fun (inUtc, _) measure => (inUtc, measure)
    | _ => none

/-- The width of integers, and whether they have signs. -/
def readInteger : Reader (Int × Bool) :=
  readRecord [1, 2] (0, false) fun
    | 1 => put readSignedByte fun (_, signed) width => (width, signed)
    | 2 => put readFlag fun (width, _) signed => (width, signed)
    | _ => none

/-- What values mean. -/
def readMeaning : Reader Meaning :=
  readChoice fun
    | 1 => bare .string
    | 2 => bare .map
    | 3 => bare .list
    | 4 => bare .enum
    | 5 => some ((fun (scale, precision) => .decimal scale precision) <$> readDecimal)
    | 6 => bare .date
    | 7 => some ((fun (inUtc, measure) => .time inUtc measure) <$> readTime)
    | 8 => some ((fun (inUtc, measure) => .timestamp inUtc measure) <$> readTime)
    | 10 => some ((fun (width, signed) => .integer width signed) <$> readInteger)
    | 11 => bare .unknown
    | 12 => bare .json
    | 13 => bare .bson
    | 14 => bare .uuid
    | 15 => bare .float16
    | _ => none

/-! ### Columns, chunks and groups of rows -/

/-- A column. -/
def readColumn : Reader ToldColumn :=
  readRecord [4] {} fun
    | 1 => put (readSigned 32) ({ · with type := some · })
    | 2 => put (readSigned 32) ({ · with length := some · })
    | 3 => put (readSigned 32) ({ · with repetition := some · })
    | 4 => put readText ({ · with name := · })
    | 5 => put (readSigned 32) ({ · with children := some · })
    | 6 => put (readSigned 32) ({ · with label := some · })
    | 7 => put (readSigned 32) ({ · with scale := some · })
    | 8 => put (readSigned 32) ({ · with precision := some · })
    | 9 => passed readNumber
    | 10 => put readMeaning ({ · with meaning := some · })
    | _ => none

/-- Statistics of a chunk or a page. -/
def readStatistics : Reader Statistics :=
  readRecord [] {} fun
    | 1 => put readBytes ({ · with olderMax := some · })
    | 2 => put readBytes ({ · with olderMin := some · })
    | 3 => put readNumber ({ · with nulls := some · })
    | 4 => passed readNumber
    | 5 => put readBytes ({ · with max := some · })
    | 6 => put readBytes ({ · with min := some · })
    | 7 | 8 => passed readFlag
    | _ => none

/-- A count of pages. -/
def readPageCount : Reader ToldPageCount :=
  readRecord [1, 2, 3] {} fun
    | 1 => put (readSigned 32) ({ · with kind := · })
    | 2 => put (readSigned 32) ({ · with encoding := · })
    | 3 => passed readNumber
    | _ => none

/-- Statistics of how much room values take. -/
def readSizeStatistics : Reader Unit :=
  readRecord [] () fun
    | 1 => passed readNumber
    | 2 | 3 => passed (readList readNumber)
    | _ => none

/-- A name with or without a text. -/
def readEntry : Reader (String × Option String) :=
  readRecord [1] ("", none) fun
    | 1 => put readText fun (_, value) key => (key, value)
    | 2 => put readText fun (key, _) value => (key, some value)
    | _ => none

/-- A chunk of a column. -/
def readChunk : Reader ToldChunk :=
  readRecord [1, 2, 3, 4, 5, 6, 7, 9] {} fun
    | 1 => put (readSigned 32) ({ · with type := · })
    | 2 => put (readList (readSigned 32)) ({ · with encodings := · })
    | 3 => passed (readList readText)
    | 4 => put (readSigned 32) ({ · with codec := · })
    | 5 | 6 | 10 | 14 | 15 => passed readNumber
    | 7 => put readNumber ({ · with size := · })
    | 8 => passed (readList readEntry)
    | 9 => put readNumber ({ · with dataStart := · })
    | 11 => put readNumber ({ · with dictionaryStart := some · })
    | 12 => put readStatistics ({ · with statistics := some · })
    | 13 => put (readList readPageCount) ({ · with pageCounts := · })
    | 16 => passed readSizeStatistics
    | _ => none

/-- The key of an encrypted column. -/
def readColumnKey : Reader Unit :=
  readRecord [1] () fun
    | 1 => passed (readList readText)
    | 2 => passed readBytes
    | _ => none

/-- How a chunk is encrypted. -/
def readChunkCipher : Reader Unit :=
  readChoice fun
    | 1 => some readEmpty
    | 2 => some readColumnKey
    | _ => none

/-- A chunk, if it is told of, with where it is told of. -/
def readPlacedChunk : Reader (Option ToldChunk) :=
  readRecord [2] none fun
    | 1 => passed readText
    | 3 => put readChunk fun _ chunk => some chunk
    | 2 | 4 | 5 | 6 | 7 => passed readNumber
    | 8 => passed readChunkCipher
    | 9 => passed readBytes
    | _ => none

/-- A column by which rows are sorted. -/
def readSorting : Reader Unit :=
  readRecord [1, 2, 3] () fun
    | 1 => passed readNumber
    | 2 | 3 => passed readFlag
    | _ => none

/-- A group of rows. -/
def readRowGroup : Reader ToldRowGroup :=
  readRecord [1, 2, 3] {} fun
    | 1 => put (readList readPlacedChunk) ({ · with chunks := · })
    | 3 => put readNumber ({ · with rows := · })
    | 4 => passed (readList readSorting)
    | 2 | 5 | 6 | 7 => passed readNumber
    | _ => none

/-! ### Tables -/

/-- The order of the values of a column: the one of its type. -/
def readOrder : Reader Unit :=
  readChoice fun
    | 1 => some readEmpty
    | _ => none

/-- The parameters of a cipher. -/
def readCipherParameters : Reader Unit :=
  readRecord [] () fun
    | 1 | 2 => passed readBytes
    | 3 => passed readFlag
    | _ => none

/-- A cipher. -/
def readCipher : Reader Unit :=
  readChoice fun
    | 1 | 2 => some readCipherParameters
    | _ => none

/-- The metadata of a table. Orders take no room, so that there may be fewer than none of them. -/
def readTable : Reader ToldTable :=
  readRecord [1, 2, 3, 4] {} fun
    | 1 => passed readNumber
    | 2 => put (readList readColumn) ({ · with columns := · })
    | 3 => put readNumber ({ · with rows := · })
    | 4 => put (readList readRowGroup) ({ · with rowGroups := · })
    | 5 => put (readList readEntry) ({ · with entries := · })
    | 6 => passed readText
    | 7 => put (readItems fun _ => readOrder) fun told orders =>
      { told with orders := some orders.length }
    | 8 => passed readCipher
    | 9 => passed readBytes
    | _ => none

/-- The metadata of a table at the start of bytes. -/
def readMetadata (bytes : List UInt8) : Except Fault ToldTable :=
  Prod.fst <$> readTable.run ⟨bytes, none⟩

/-! ### Pages -/

/-- What is told of a page of data: how many values it has, how they are encoded, and how the
    numbers are that tell which rows they are in. -/
structure ToldData where
  count : Int := 0
  encoding : Int := 0
  definitions : Int := 0
  repetitions : Int := 0
  statistics : Option Statistics := none
deriving DecidableEq, Repr

/-- What is told of a page: its kind, its sizes before and after it was compressed, and its data. -/
structure ToldPage where
  kind : Int := 0
  fullSize : Int := 0
  size : Int := 0
  data : Option ToldData := none
  /-- Whether it tells of itself as a dictionary. -/
  isDictionary : Bool := false
  /-- Whether it tells of itself as data in the second layout. -/
  isLater : Bool := false
deriving DecidableEq, Repr

/-- What a page of data tells of itself. -/
def readData : Reader ToldData :=
  readRecord [1, 2, 3, 4] {} fun
    | 1 => put (readSigned 32) ({ · with count := · })
    | 2 => put (readSigned 32) ({ · with encoding := · })
    | 3 => put (readSigned 32) ({ · with definitions := · })
    | 4 => put (readSigned 32) ({ · with repetitions := · })
    | 5 => put readStatistics ({ · with statistics := some · })
    | _ => none

/-- What a dictionary tells of itself. -/
def readDictionary : Reader Unit :=
  readRecord [1, 2] () fun
    | 1 | 2 => passed readNumber
    | 3 => passed readFlag
    | _ => none

/-- What a page of data in the second layout tells of itself. -/
def readLater : Reader Unit :=
  readRecord [1, 2, 3, 4, 5, 6] () fun
    | 1 | 2 | 3 | 4 | 5 | 6 => passed readNumber
    | 7 => passed readFlag
    | 8 => passed readStatistics
    | _ => none

/-- What a page tells of itself. -/
def readPage : Reader ToldPage :=
  readRecord [1, 2, 3] {} fun
    | 1 => put (readSigned 32) ({ · with kind := · })
    | 2 => put (readSigned 32) ({ · with fullSize := · })
    | 3 => put (readSigned 32) ({ · with size := · })
    | 4 => passed readNumber
    | 5 => put readData ({ · with data := some · })
    | 6 => passed readEmpty
    | 7 => put readDictionary fun told _ => { told with isDictionary := true }
    | 8 => put readLater fun told _ => { told with isLater := true }
    | _ => none

/-- Metadata with no column, no row and no row group. -/
example : readMetadata [0x15, 0x02, 0x19, 0x0C, 0x16, 0x00, 0x19, 0x0C, 0x00] = .ok {} := by
  rfl

example : readMetadata [] = .error .ended := by rfl

example : readMetadata [0x00] = .error .incomplete := by rfl

end SparseGraph.TableFile
