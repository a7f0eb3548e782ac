import SparseGraph.TableFile.Codes

namespace SparseGraph.TableFile

/-!
# Meanings

Newer tables tell with parameters what the values of a column mean; older ones only label it. Most
meanings have a label in their place.

* `Meaning` — what the values of a column mean;
* `Meaning.label?` — the label in its place;
* `Meaning.text` — how a message shows it.
-/

/-- The units of times. -/
inductive TimeUnit where
  | millis
  | micros
  | nanos
deriving DecidableEq, Repr

/-- What the values of a column mean. -/
inductive Meaning where
  | string
  | map
  | list
  | enum
  | decimal (scale precision : Int)
  | date
  | time (inUtc : Bool) (measure : TimeUnit)
  | timestamp (inUtc : Bool) (measure : TimeUnit)
  | integer (width : Int) (signed : Bool)
  /-- Nothing: there is no value in any row. -/
  | unknown
  | json
  | bson
  | uuid
  /-- Fractions in two bytes. -/
  | float16
deriving DecidableEq, Repr

/-- How a message shows a unit. -/
def TimeUnit.text : TimeUnit → String
  | .millis => "MILLIS(MilliSeconds)"
  | .micros => "MICROS(MicroSeconds)"
  | .nanos => "NANOS(NanoSeconds)"

/-- How a message shows a name with its fields. -/
def withFields (name : String) (fields : List (String × String)) : String :=
  let parts := fields.map fun (field, value) => s!"{field}: {value}"
  name ++ " \x7b " ++ ", ".intercalate parts ++ " \x7d"

/-- How a message shows a meaning. -/
def Meaning.text : Meaning → String
  | .string => "String"
  | .map => "Map"
  | .list => "List"
  | .enum => "Enum"
  | .decimal scale precision =>
    withFields "Decimal" [("scale", toString scale), ("precision", toString precision)]
  | .date => "Date"
  | .time inUtc measure =>
    withFields "Time" [("is_adjusted_to_u_t_c", toString inUtc), ("unit", measure.text)]
  | .timestamp inUtc measure =>
    withFields "Timestamp" [("is_adjusted_to_u_t_c", toString inUtc), ("unit", measure.text)]
  | .integer width signed =>
    withFields "Integer" [("bit_width", toString width), ("is_signed", toString signed)]
  | .unknown => "Unknown"
  | .json => "Json"
  | .bson => "Bson"
  | .uuid => "Uuid"
  | .float16 => "Float16"

/-- Whether integers have one of the widths that there are. -/
def Meaning.hasWidth : Meaning → Bool
  | .integer width _ => [8, 16, 32, 64].contains width
  | _ => true

/-- The label of integers. -/
def integerLabel? : Int → Bool → Option Label
  | 8, true => some .int8
  | 16, true => some .int16
  | 32, true => some .int32
  | 64, true => some .int64
  | 8, false => some .uint8
  | 16, false => some .uint16
  | 32, false => some .uint32
  | 64, false => some .uint64
  | _, _ => none

/-- The label in place of a meaning. -/
def Meaning.label? : Meaning → Option Label
  | .string => some .utf8
  | .map => some .map
  | .list => some .list
  | .enum => some .enum
  | .decimal .. => some .decimal
  | .date => some .date
  | .time _ .millis => some .timeMillis
  | .time _ .micros => some .timeMicros
  | .timestamp _ .millis => some .timestampMillis
  | .timestamp _ .micros => some .timestampMicros
  | .integer width signed => integerLabel? width signed
  | .json => some .json
  | .bson => some .bson
  | .time _ .nanos | .timestamp _ .nanos | .unknown | .uuid | .float16 => none

end SparseGraph.TableFile
