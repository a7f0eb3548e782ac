import SparseGraph.Json.Number
import SparseGraph.NameMap

namespace SparseGraph.Json

/-!
# JSON values

* `Value` — a JSON value, the members of an object listed in the order of their names;
* `Value.render` — its text, without blanks;
* `Value.ofNode?` — the value of a tree;
* `Value.read?` — the value of a text.
-/

/-- A JSON value. -/
inductive Value where
  | null
  | bool (b : Bool)
  | number (n : Number)
  | text (s : String)
  | array (items : List Value)
  | object (members : List (String × Value))

instance : Inhabited Value := ⟨.null⟩

/-! ### Writing -/

/-- How a character is written in a string. -/
def escapeChar (c : Char) : List Char :=
  if c = '"' then ['\\', '"']
  else if c = '\\' then ['\\', '\\']
  else if c = '\n' then ['\\', 'n']
  else if c = '\r' then ['\\', 'r']
  else if c = '\t' then ['\\', 't']
  else if c = '\x08' then ['\\', 'b']
  else if c = '\x0c' then ['\\', 'f']
  else if c.toNat < 0x20 then
    ['\\', 'u', '0', '0', Nat.digitChar (c.toNat / 16), Nat.digitChar (c.toNat % 16)]
  else [c]

/-- A string between its quotes. -/
def renderText (s : String) : List Char :=
  '"' :: s.toList.flatMap escapeChar ++ ['"']

/-- Texts with commas between them. -/
def joinComma : List (List Char) → List Char
  | [] => []
  | [t] => t
  | t :: ts => t ++ ',' :: joinComma ts

/-- The text of an array with these items. -/
def renderArray (items : List (List Char)) : List Char :=
  '[' :: joinComma items ++ [']']

/-- The text of an object with these members. -/
def renderObject (members : List (String × List Char)) : List Char :=
  '\x7b' :: joinComma (members.map fun (name, value) => renderText name ++ ':' :: value) ++ ['\x7d']

mutual

/-- The text of a value. -/
def Value.render : Value → List Char
  | .null => ['n', 'u', 'l', 'l']
  | .bool true => ['t', 'r', 'u', 'e']
  | .bool false => ['f', 'a', 'l', 's', 'e']
  | .number n => n.render
  | .text s => renderText s
  | .array items => renderArray (renderItems items)
  | .object members => renderObject (renderMembers members)

/-- The texts of the items of an array. -/
def renderItems : List Value → List (List Char)
  | [] => []
  | v :: vs => v.render :: renderItems vs

/-- The names and texts of the members of an object. -/
def renderMembers : List (String × Value) → List (String × List Char)
  | [] => []
  | (name, v) :: rest => (name, v.render) :: renderMembers rest

end

/-! ### Reading -/

/-- Whether `n` is a surrogate that comes first in a pair. -/
def isHighSurrogate (n : Nat) : Bool :=
  0xD800 ≤ n && n < 0xDC00

/-- Whether `n` is a surrogate that comes second in a pair. -/
def isLowSurrogate (n : Nat) : Bool :=
  0xDC00 ≤ n && n < 0xE000

/-- The characters that a string denotes, unless a surrogate stands alone. -/
def decodeUnits? : List TextUnit → Option (List Char)
  | [] => some []
  | .char c :: rest => (decodeUnits? rest).map (c :: ·)
  | .code high :: .code low :: rest =>
    if isHighSurrogate high then
      if isLowSurrogate low then
        (decodeUnits? rest).map
          (Char.ofNat (0x10000 + (high - 0xD800) * 0x400 + (low - 0xDC00)) :: ·)
      else none
    else if isLowSurrogate high then none
    else (decodeUnits? (.code low :: rest)).map (Char.ofNat high :: ·)
  | .code n :: rest =>
    if isHighSurrogate n || isLowSurrogate n then none
    else (decodeUnits? rest).map (Char.ofNat n :: ·)

/-- The string that is written as `units`. -/
def decodeText? (units : List TextUnit) : Option String :=
  (decodeUnits? units).map String.ofList

mutual

/-- The value of a tree in which at most `levels` arrays and objects stand in one another. -/
def Value.ofNode? (levels : Nat) : Node → Option Value
  | .null => some .null
  | .bool b => some (.bool b)
  | .number t => (Number.ofText? t).map .number
  | .text units => (decodeText? units).map .text
  | .array items =>
    match levels with
    | 0 => none
    | levels + 1 => (valuesOfNodes? levels items).map .array
  | .object members =>
    match levels with
    | 0 => none
    | levels + 1 =>
      (membersOfNodes? levels members).map fun ms =>
        .object (ms.foldl (fun done (name, v) => insertName name v done) [])

/-- The values of trees. -/
def valuesOfNodes? (levels : Nat) : List Node → Option (List Value)
  | [] => some []
  | node :: rest => do
    let v ← Value.ofNode? levels node
    let vs ← valuesOfNodes? levels rest
    return v :: vs

/-- The members of an object, in the order of the text. -/
def membersOfNodes? (levels : Nat) : List (List TextUnit × Node) → Option (List (String × Value))
  | [] => some []
  | (key, node) :: rest => do
    let name ← decodeText? key
    let v ← Value.ofNode? levels node
    let ms ← membersOfNodes? levels rest
    return (name, v) :: ms

end

/-- How many arrays and objects may stand in one another. -/
def maxLevels : Nat := 127

/-- The value of a text. -/
def Value.read? (text : String) : Option Value :=
  (Node.read? text.toList).bind (Value.ofNode? maxLevels)

end SparseGraph.Json
