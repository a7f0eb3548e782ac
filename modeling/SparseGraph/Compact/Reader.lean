namespace SparseGraph.Compact

/-!
# Compactly encoded records

A record is a run of fields, each behind a header with its number and the kind of its value, and
ends with an empty header. Numbers take seven bits a byte, and of two truth values the header of
the field tells which it is. Only whether bytes encode a record matters here, not what they tell.

* `Reader` — a step through encoded bytes;
* `readFields`, `readItems` — the fields of a record, and the items of a list;
* `skip` — a value of any kind.
-/

/-- Why bytes encode no record. -/
inductive Fault where
  /-- The bytes end too early. -/
  | ended
  | malformed
  /-- A field is missing, or a value is of no kind. -/
  | incomplete
  /-- The record holds values in values in values, too many of them. -/
  | tooDeep
  /-- A value to be passed over is of a kind that cannot be. -/
  | unsupported
  /-- There are fewer than no items, or too few bytes for a fraction. -/
  | impossible
deriving DecidableEq, Repr

/-- The wording of a fault. -/
def Fault.message : Fault → String
  | .ended => "end of file"
  | .malformed => "bad data"
  | .incomplete => "protocol error"
  | .tooDeep => "maximum skip depth reached"
  | .unsupported => "not implemented"
  | .impossible => "impossible size"

/-- What is still to be read. -/
structure Source where
  bytes : List UInt8
  /-- A truth value that a header has told and no field has taken yet. -/
  told : Option Bool := none

/-- A step through encoded bytes. -/
abbrev Reader := StateT Source (Except Fault)

/-- The kinds of values. -/
inductive Kind where
  /-- No value: the record ends. -/
  | stop
  | flag
  | byte
  | number
  | double
  | text
  | list
  | set
  | map
  | record
deriving DecidableEq, Repr

/-- The kind that four bits tell. -/
def Kind.ofBits? : UInt8 → Option Kind
  | 0 => some .stop
  | 1 | 2 => some .flag
  | 3 => some .byte
  | 4 | 5 | 6 => some .number
  | 7 => some .double
  | 8 => some .text
  | 9 => some .list
  | 10 => some .set
  | 11 => some .map
  | 12 => some .record
  | _ => none

/-- The next so many bytes. -/
def readMany (count : Nat) : Reader (List UInt8) := fun s =>
  if s.bytes.length < count then .error .ended
  else .ok (s.bytes.take count, { s with bytes := s.bytes.drop count })

/-- The next byte. -/
def readByte : Reader UInt8 := fun s =>
  match s.bytes with
  | [] => .error .ended
  | b :: bytes => .ok (b, { s with bytes })

/-- The number in groups of seven bits, the lowest first; bits above the 64th wrap around. -/
def ofGroups (groups : List UInt8) : UInt64 :=
  (groups.zipIdx.map fun (group, i) =>
    (group &&& 0x7F).toUInt64 <<< UInt64.ofNat (7 * i)).foldl (· ||| ·) 0

/-- A number without sign. All its bytes but the last have their highest bit set. -/
def readWord : Reader UInt64 := fun s =>
  let high := s.bytes.takeWhile (128 ≤ ·)
  match s.bytes.drop high.length with
  | [] => .error .ended
  | last :: bytes => .ok (ofGroups (high ++ [last]), { s with bytes })

/-- A number with a sign, which is its lowest bit. -/
def readNumber : Reader Int := do
  let w ← readWord
  let size : Int := (w >>> 1).toNat
  return if w &&& 1 = 0 then size else -size - 1

/-- A number with a sign that fits into so many bits; bits above wrap around. -/
def readSigned (bits : Nat) : Reader Int := do
  return (← readNumber).bmod (1 <<< bits)

/-- A number with a sign in a byte. -/
def readSignedByte : Reader Int := do
  return ((← readByte).toNat : Int).bmod 256

/-- A truth value: the one that a header has told, or else a byte. -/
def readFlag : Reader Bool := do
  match (← get).told with
  | some flag =>
    modify ({ · with told := none })
    return flag
  | none =>
    let b ← readByte
    if 2 < b then throw .malformed else return b == 1

/-- Bytes behind their count. -/
def readBytes : Reader (List UInt8) := do
  readMany (← readWord).toNat

/-- Bytes in UTF-8 behind their count. -/
def readText : Reader String := do
  let text : ByteArray := ⟨(← readBytes).toArray⟩
  match String.fromUTF8? text with
  | some chars => return chars
  | none => throw .malformed

/-- The kind that the low bits of a byte tell. -/
def kindOf (b : UInt8) : Reader Kind :=
  match Kind.ofBits? (b &&& 0x0F) with
  | some kind => return kind
  | none => throw .malformed

/-- The number of a field, a word of 16 bits: so far behind that of the field before, or given by
    itself if the distance is zero. -/
def readFieldNumber (last : Int) (distance : UInt8) : Reader Int := do
  if distance = 0 then readSigned 16
  else if 32767 < last + distance.toNat then throw .malformed
  else return last + distance.toNat

/-- The header of the field behind the one with the number `last`; none at the end of a record. -/
def readHeader (last : Int) : Reader (Option (Int × Kind)) := do
  let b ← readByte
  match ← kindOf b with
  | .stop => return none
  | kind =>
    if kind = .flag then modify ({ · with told := some (b &&& 0x0F == 1) })
    return some (← readFieldNumber last (b >>> 4), kind)

/-- The fields behind the one with the number `last`, and their numbers. Each takes a byte at least,
    so that `fuel` bounds their count. -/
def readFieldsFrom {σ : Type} (field : Int → Kind → σ → Reader σ) :
    Nat → Int → σ → Reader (σ × List Int)
  | 0, _, _ => throw .ended
  | fuel + 1, last, found => do
    match ← readHeader last with
    | none => return (found, [])
    | some (id, kind) =>
      let (found, ids) ← readFieldsFrom field fuel id (← field id kind found)
      return (found, id :: ids)

/-- The fields of a record: each of them changes what is found so far. Returns their numbers too. -/
def readFields {σ : Type} (field : Int → Kind → σ → Reader σ) (start : σ) :
    Reader (σ × List Int) := do
  readFieldsFrom field ((← get).bytes.length + 1) 0 start

/-- Take a step so many times. -/
def times {α : Type} (step : Reader α) : Nat → Reader (List α)
  | 0 => return []
  | count + 1 => do
    let first ← step
    return first :: (← times step count)

/-- The kind of the items of a list, and their count in 32 bits. A count below 15 stands beside the
    kind. -/
def readListHeader : Reader (Kind × Int) := do
  let b ← readByte
  let kind ← kindOf b
  let count ← if b >>> 4 = 15 then pure (← readWord).toNat else pure (b >>> 4).toNat
  return (kind, (count : Int).bmod (1 <<< 32))

/-- The items of a list, each read by `item`. -/
def readItems {α : Type} (item : Kind → Reader α) : Reader (List α) := do
  let (kind, count) ← readListHeader
  times (item kind) count.toNat

/-- Pass over a value of a kind, if it is not too deep. -/
def skip : Nat → Kind → Reader Unit
  | 0, _ => throw .tooDeep
  | depth + 1, kind =>
    match kind with
    | .flag => discard readFlag
    | .byte => discard readByte
    | .number => discard readWord
    | .double => do
      if (← get).bytes.length < 8 then throw .impossible else discard (readMany 8)
    | .text => discard readText
    | .record => discard (readFields (fun _ kind _ => skip depth kind) ())
    | .list => discard (readItems fun kind => skip depth kind)
    | .set | .map => throw .unsupported
    | .stop => throw .incomplete

/-- How deep a value may be that is passed over. -/
def deepest : Nat := 64

/-- A record. The fields that it knows change what is found so far, and the others are passed over;
    those with the numbers `needed` must be there. -/
def readRecord {σ : Type} (needed : List Int) (start : σ)
    (field : Int → Option (σ → Reader σ)) : Reader σ := do
  let step (id : Int) (kind : Kind) (found : σ) : Reader σ :=
    match field id with
    | some read => read found
    | none => do
      skip deepest kind
      return found
  let (found, ids) ← readFields step start
  if needed.all ids.contains then return found else throw .incomplete

/-- A choice: a record of one field only, which is one of those that it knows. -/
def readChoice {α : Type} (choice : Int → Option (Reader α)) : Reader α := do
  let step (id : Int) (kind : Kind) (found : Option α) : Reader (Option α) :=
    match choice id with
    | some read => some <$> read
    | none => do
      skip deepest kind
      return found
  match ← readFields step none with
  | (some value, [_]) => return value
  | _ => throw .malformed

/-- A list of items that take room: there cannot be fewer than none of them. -/
def readList {α : Type} (item : Reader α) : Reader (List α) := do
  let (_, count) ← readListHeader
  if count < 0 then throw .impossible else times item count.toNat

/-- A field that changes what is found so far by the value that it holds. -/
def put {α σ : Type} (value : Reader α) (change : σ → α → σ) : Option (σ → Reader σ) :=
  some fun found => return change found (← value)

/-- A field whose value is of no interest. -/
def passed {α σ : Type} (value : Reader α) : Option (σ → Reader σ) :=
  put value fun found _ => found

end SparseGraph.Compact
