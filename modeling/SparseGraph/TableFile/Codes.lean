namespace SparseGraph.TableFile

/-!
# Codes

The metadata of a table tell types and the like by numbers.

* `ValueType`, `Repetition`, `Label` — what columns hold;
* `Encoding`, `Codec`, `PageKind` — how pages hold it;
* `Vocabulary`, `decode` — what a number stands for.
-/

/-- The types that values are stored in. -/
inductive ValueType where
  | boolean
  | int32
  | int64
  | int96
  | float
  | double
  | bytes
  /-- Byte strings of one length. -/
  | fixedBytes
deriving DecidableEq, Repr

/-- The name of a type. -/
def ValueType.name : ValueType → String
  | .boolean => "BOOLEAN"
  | .int32 => "INT32"
  | .int64 => "INT64"
  | .int96 => "INT96"
  | .float => "FLOAT"
  | .double => "DOUBLE"
  | .bytes => "BYTE_ARRAY"
  | .fixedBytes => "FIXED_LEN_BYTE_ARRAY"

/-- How often a column holds a value in a row. -/
inductive Repetition where
  /-- Once. -/
  | required
  /-- Once at most. -/
  | optional
  /-- Any number of times. -/
  | repeated
deriving DecidableEq, Repr

/-- What a column holds beyond its type. -/
inductive Label where
  | utf8
  | map
  | mapKeyValue
  | list
  | enum
  | decimal
  | date
  | timeMillis
  | timeMicros
  | timestampMillis
  | timestampMicros
  | uint8
  | uint16
  | uint32
  | uint64
  | int8
  | int16
  | int32
  | int64
  | json
  | bson
  | interval
deriving DecidableEq, Repr

/-- The name of a label. -/
def Label.name : Label → String
  | .utf8 => "UTF8"
  | .map => "MAP"
  | .mapKeyValue => "MAP_KEY_VALUE"
  | .list => "LIST"
  | .enum => "ENUM"
  | .decimal => "DECIMAL"
  | .date => "DATE"
  | .timeMillis => "TIME_MILLIS"
  | .timeMicros => "TIME_MICROS"
  | .timestampMillis => "TIMESTAMP_MILLIS"
  | .timestampMicros => "TIMESTAMP_MICROS"
  | .uint8 => "UINT_8"
  | .uint16 => "UINT_16"
  | .uint32 => "UINT_32"
  | .uint64 => "UINT_64"
  | .int8 => "INT_8"
  | .int16 => "INT_16"
  | .int32 => "INT_32"
  | .int64 => "INT_64"
  | .json => "JSON"
  | .bson => "BSON"
  | .interval => "INTERVAL"

/-- How the values of a page are encoded. -/
inductive Encoding where
  /-- One value behind another. -/
  | plain
  | plainDictionary
  | runLength
  | bitPacked
  | deltaBinaryPacked
  | deltaLengthBytes
  | deltaBytes
  | dictionary
  | byteStreamSplit
deriving DecidableEq, Repr

/-- How pages are compressed. -/
inductive Codec where
  | uncompressed
  | snappy
  | gzip
  | lzo
  | brotli
  | lz4
  | zstd
  | lz4Raw
deriving DecidableEq, Repr

/-- The kinds of pages. -/
inductive PageKind where
  | data
  | index
  | dictionary
  /-- Data in the second layout. -/
  | dataLater
deriving DecidableEq, Repr

/-- What numbers stand for. -/
structure Vocabulary (α : Type) where
  /-- What the numbers tell. -/
  subject : String
  words : List (Int × α)

/-- The numbers of types. -/
def valueTypes : Vocabulary ValueType where
  subject := "type"
  words :=
    [(0, .boolean), (1, .int32), (2, .int64), (3, .int96), (4, .float), (5, .double), (6, .bytes),
      (7, .fixedBytes)]

/-- The numbers of repetitions. -/
def repetitions : Vocabulary Repetition where
  subject := "repetition type"
  words := [(0, .required), (1, .optional), (2, .repeated)]

/-- The numbers of labels. -/
def labels : Vocabulary Label where
  subject := "converted type"
  words :=
    [(0, .utf8), (1, .map), (2, .mapKeyValue), (3, .list), (4, .enum), (5, .decimal), (6, .date),
      (7, .timeMillis), (8, .timeMicros), (9, .timestampMillis), (10, .timestampMicros),
      (11, .uint8), (12, .uint16), (13, .uint32), (14, .uint64), (15, .int8), (16, .int16),
      (17, .int32), (18, .int64), (19, .json), (20, .bson), (21, .interval)]

/-- The numbers of encodings. -/
def encodings : Vocabulary Encoding where
  subject := "encoding"
  words :=
    [(0, .plain), (2, .plainDictionary), (3, .runLength), (4, .bitPacked), (5, .deltaBinaryPacked),
      (6, .deltaLengthBytes), (7, .deltaBytes), (8, .dictionary), (9, .byteStreamSplit)]

/-- The numbers of ways to compress. -/
def codecs : Vocabulary Codec where
  subject := "compression codec"
  words :=
    [(0, .uncompressed), (1, .snappy), (2, .gzip), (3, .lzo), (4, .brotli), (5, .lz4), (6, .zstd),
      (7, .lz4Raw)]

/-- The numbers of kinds of pages. -/
def pageKinds : Vocabulary PageKind where
  subject := "page type"
  words := [(0, .data), (1, .index), (2, .dictionary), (3, .dataLater)]

/-- A number that stands for nothing. -/
structure UnknownCode where
  subject : String
  code : Int
deriving DecidableEq, Repr

/-- The wording of a fault. -/
def UnknownCode.message (u : UnknownCode) : String :=
  s!"unexpected parquet {u.subject}: {u.code}"

/-- What a number stands for. -/
def decode {α : Type} (vocabulary : Vocabulary α) (code : Int) : Except UnknownCode α :=
  match vocabulary.words.lookup code with
  | some word => .ok word
  | none => .error ⟨vocabulary.subject, code⟩

end SparseGraph.TableFile
