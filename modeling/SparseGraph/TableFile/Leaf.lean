import SparseGraph.TableFile.Meaning
import SparseGraph.Text.Numeral

namespace SparseGraph.TableFile

/-!
# Columns with values

* `Leaf` — a column that holds values and not further columns;
* `Leaf.check` — whether its type, its meaning and its label go together;
* `LeafFault` — why they do not.
-/

/-- A column that holds values. -/
structure Leaf where
  name : String
  type : ValueType
  repetition : Repetition
  label : Option Label
  meaning : Option Meaning
  /-- The length of byte strings of one length. -/
  length : Int
  /-- How many digits of decimals are behind the point. -/
  scale : Int
  /-- How many digits decimals have. -/
  precision : Int
deriving DecidableEq, Repr

/-- Why digits do not fit into a column. -/
inductive DecimalFault where
  /-- The type holds no decimals. -/
  | wrongType
  | badPrecision (precision : Int)
  | badScale (scale : Int)
  /-- More digits are behind the point than there are digits. -/
  | scaleAbove (scale precision : Int)
  | tooManyDigits (type : ValueType) (precision : Int)
  | badLength (length : Int)
  | tooManyDigitsIn (length precision most : Int)
deriving DecidableEq, Repr

/-- The wording of a fault of decimals. -/
def DecimalFault.message : DecimalFault → String
  | .wrongType => "DECIMAL can only annotate INT32, INT64, BYTE_ARRAY and FIXED_LEN_BYTE_ARRAY"
  | .badPrecision precision => s!"Invalid DECIMAL precision: {precision}"
  | .badScale scale => s!"Invalid DECIMAL scale: {scale}"
  | .scaleAbove scale precision =>
    s!"Invalid DECIMAL: scale ({scale}) cannot be greater than precision ({precision})"
  | .tooManyDigits type precision =>
    s!"Cannot represent {type.name} as DECIMAL with precision {precision}"
  | .badLength length => s!"Invalid length {length} for Decimal"
  | .tooManyDigitsIn length precision most =>
    s!"Cannot represent FIXED_LEN_BYTE_ARRAY as DECIMAL with length {length} and precision " ++
      s!"{precision}. The max precision can only be {most}"

/-- Why a column with values cannot be. -/
inductive LeafFault where
  | negativeLength (length : Int)
  /-- The label is another than the one in place of the meaning. -/
  | otherLabel (meaning : Meaning) (label : Label)
  /-- The meaning is one of columns that hold columns. -/
  | meaningOfGroups (meaning : Meaning)
  | otherScale (told scale : Int)
  | otherPrecision (told precision : Int)
  | millisInInt64
  | otherType (meaning : Meaning) (type : ValueType)
  /-- What this is called needs byte strings of this length. -/
  | needsLength (what : String) (length : Nat)
  | needsType (label : Label) (type : ValueType)
  /-- The label is one of columns that hold columns. -/
  | labelOfGroups (label : Label)
  | decimal (fault : DecimalFault)
deriving DecidableEq, Repr

/-- The wording of a fault in the column of a given name. -/
def LeafFault.message (name : String) : LeafFault → String
  | .negativeLength length =>
    s!"Invalid FIXED_LEN_BYTE_ARRAY length: {length} for field '{name}'"
  | .otherLabel meaning label =>
    s!"Logical type {meaning.text} is incompatible with converted type {label.name} " ++
      s!"for field '{name}'"
  | .meaningOfGroups meaning =>
    s!"{meaning.text} cannot be applied to a primitive type for field '{name}'"
  | .otherScale told scale =>
    s!"DECIMAL logical type scale {told} must match self.scale {scale} for field '{name}'"
  | .otherPrecision told precision =>
    s!"DECIMAL logical type precision {told} must match self.precision {precision} " ++
      s!"for field '{name}'"
  | .millisInInt64 => s!"Cannot use millisecond unit on INT64 type for field '{name}'"
  | .otherType meaning type =>
    s!"Cannot annotate {meaning.text} from {type.name} for field '{name}'"
  | .needsLength what length =>
    s!"{what} cannot annotate field '{name}' because it is not a " ++
      s!"FIXED_LEN_BYTE_ARRAY({length}) field"
  | .needsType label type =>
    s!"{label.name} cannot annotate field '{name}' because it is not a {type.name} field"
  | .labelOfGroups label =>
    s!"{label.name} cannot be applied to primitive field '{name}'"
  | .decimal fault => fault.message

/-- How many digits always fit into a number with sign of so many bytes. -/
def digitsIn (bytes : Nat) : Nat :=
  (Text.digits ((1 <<< (8 * bytes - 1)) - 1)).length - 1

/-- The greatest length of byte strings for which the number of digits is bounded. -/
def longestDecimal : Nat := 128

/-- The greatest number with sign of 32 bits. -/
def maxInt : Nat := 2147483647

namespace Leaf

/-- Whether decimals with its scale and precision fit into its type. -/
def checkDecimal (l : Leaf) : Except DecimalFault Unit := do
  unless [.int32, .int64, .bytes, .fixedBytes].contains l.type do throw .wrongType
  if l.precision < 1 then throw (.badPrecision l.precision)
  if l.scale < 0 then throw (.badScale l.scale)
  if l.precision < l.scale then throw (.scaleAbove l.scale l.precision)
  match l.type with
  | .int32 => if 9 < l.precision then throw (.tooManyDigits .int32 l.precision)
  | .int64 => if 18 < l.precision then throw (.tooManyDigits .int64 l.precision)
  | .fixedBytes =>
    if maxInt < 8 * l.length then throw (.badLength l.length)
    let most := digitsIn l.length.toNat
    if l.length ≤ longestDecimal ∧ most < l.precision then
      throw (.tooManyDigitsIn l.length l.precision most)
  | _ => pure ()

/-- Whether its values can mean this. -/
def checkMeaning (l : Leaf) (meaning : Meaning) : Except LeafFault Unit := do
  match l.label with
  | some label =>
    if meaning.label? ≠ some label then throw (.otherLabel meaning label)
  | none => pure ()
  match meaning, l.type with
  | .map, _ | .list, _ => throw (.meaningOfGroups meaning)
  | .decimal scale precision, _ =>
    if scale ≠ l.scale then throw (.otherScale scale l.scale)
    if precision ≠ l.precision then throw (.otherPrecision precision l.precision)
    l.checkDecimal.mapError .decimal
  | .time _ .millis, .int64 => throw .millisInInt64
  | .time _ .millis, .int32 | .time .., .int64 | .timestamp .., .int64 | .date, .int32
  | .unknown, .int32 | .string, .bytes | .enum, .bytes | .json, .bytes | .bson, .bytes => pure ()
  | .integer width _, type =>
    unless (type = .int32 ∧ width ≤ 32) ∨ (type = .int64 ∧ width = 64) do
      throw (.otherType meaning type)
  | .uuid, .fixedBytes => if l.length ≠ 16 then throw (.needsLength "UUID" 16)
  | .float16, .fixedBytes => if l.length ≠ 2 then throw (.needsLength "FLOAT16" 2)
  | _, type => throw (.otherType meaning type)

/-- Whether it can be labelled so. -/
def checkLabel (l : Leaf) (label : Label) : Except LeafFault Unit := do
  match label with
  | .utf8 | .bson | .json | .enum =>
    if l.type ≠ .bytes then throw (.needsType label .bytes)
  | .decimal => l.checkDecimal.mapError .decimal
  | .date | .timeMillis | .uint8 | .uint16 | .uint32 | .int8 | .int16 | .int32 =>
    if l.type ≠ .int32 then throw (.needsType label .int32)
  | .timeMicros | .timestampMillis | .timestampMicros | .uint64 | .int64 =>
    if l.type ≠ .int64 then throw (.needsType label .int64)
  | .interval =>
    if l.type ≠ .fixedBytes ∨ l.length ≠ 12 then throw (.needsLength "INTERVAL" 12)
  | .map | .mapKeyValue | .list => throw (.labelOfGroups label)

/-- Whether its type, its meaning and its label go together. -/
def check (l : Leaf) : Except LeafFault Unit := do
  if l.type = .fixedBytes ∧ l.length < 0 then throw (.negativeLength l.length)
  l.meaning.forM l.checkMeaning
  l.label.forM l.checkLabel

/-- The label, or else the one in place of the meaning. -/
def labelled (l : Leaf) : Option Label :=
  l.label <|> l.meaning.bind Meaning.label?

end Leaf

end SparseGraph.TableFile
