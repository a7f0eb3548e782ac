import SparseGraph.TableFile.Bytes

namespace SparseGraph.TableFile

/-!
# Embedded schemas

Besides its columns a table may hold a schema under a name of its own: a message of another format,
in sixty-four letters.

* `decode64` — the bytes that letters stand for;
* `embeddedFault?` — why an embedded schema cannot be read.
-/

/-- Why letters stand for no bytes. -/
inductive LetterFault where
  /-- Another character than a letter, in a place. -/
  | wrongLetter (place : Nat) (letter : UInt8)
  | wrongLength (length : Nat)
  /-- The letters are not filled up to fours. -/
  | unfilled
  /-- The last letter stands for bits that no byte has room for. -/
  | lastLetter (place : Nat) (letter : UInt8)
deriving DecidableEq, Repr

/-- The wording of a fault. -/
def LetterFault.message : LetterFault → String
  | .wrongLetter place letter => s!"InvalidByte({place}, {letter.toNat})"
  | .wrongLength length => s!"InvalidLength({length})"
  | .unfilled => "InvalidPadding"
  | .lastLetter place letter => s!"InvalidLastSymbol({place}, {letter.toNat})"

/-- The letters in order. -/
def letters : List UInt8 :=
  "ABCDEFGHIJKLMNOPQRSTUVWXYZabcdefghijklmnopqrstuvwxyz0123456789+/".toUTF8.data.toList

/-- What fills the letters up to fours. -/
def filler : UInt8 := 61

/-- What a letter in a place stands for. -/
def letterValue (place : Nat) (letter : UInt8) : Except LetterFault Nat :=
  match letters.idxOf? letter with
  | some value => .ok value
  | none => .error (.wrongLetter place letter)

/-- The bytes that up to four values of six bits stand for. Bits that fill no byte are lost. -/
def bytesOf (values : List Nat) : List UInt8 :=
  let word := (values ++ List.replicate (4 - values.length) 0).foldl (fun n v => 64 * n + v) 0
  ([word / 65536, word / 256, word].map UInt8.ofNat).take (values.length * 6 / 8)

/-- How many times more values the last of so many letters has than there is room for. -/
def spareValues : Nat → Nat
  | 2 => 16
  | 3 => 4
  | _ => 1

/-- The bytes of the last letters, which begin in a place. -/
def decodeLast (place : Nat) (letters : List UInt8) : Except LetterFault (List UInt8) := do
  let body := letters.takeWhile (· ≠ filler)
  let filling := letters.drop body.length
  let behind := place + body.length
  let values ← (body.zipIdx place).mapM fun (letter, i) => letterValue i letter
  if filling ≠ [] ∧ body.length < 2 ∨ filling.any (· ≠ filler) then
    throw (.wrongLetter behind filler)
  if letters ≠ [] ∧ body.length < 2 then throw (.wrongLength behind)
  if letters.length % 4 ≠ 0 then throw .unfilled
  if values.getLastD 0 % spareValues body.length ≠ 0 then
    throw (.lastLetter (behind - 1) (body.getLastD 0))
  return bytesOf values

/-- The bytes of letters that begin in a place. The last four of them may be filled up. -/
def decodeFrom (place : Nat) : List UInt8 → Except LetterFault (List UInt8)
  | a :: b :: c :: d :: e :: rest => do
    let values ← ([a, b, c, d].zipIdx place).mapM fun (letter, i) => letterValue i letter
    return bytesOf values ++ (← decodeFrom (place + 4) (e :: rest))
  | last => decodeLast place last

/-- The bytes that letters stand for, four letters for three bytes. A last letter that stands alone
    is judged before all others. -/
def decode64 (text : List UInt8) : Except LetterFault (List UInt8) := do
  let last := text.getLastD filler
  if text.length % 4 = 1 ∧ last ≠ filler then discard (letterValue (text.length - 1) last)
  decodeFrom 0 text

example : decode64 "".toUTF8.data.toList = .ok [] := rfl

example : decode64 "TWFu".toUTF8.data.toList = .ok [77, 97, 110] := rfl

example : decode64 "TQ==".toUTF8.data.toList = .ok [77] := rfl

example : decode64 "TR==".toUTF8.data.toList = .error (.lastLetter 1 82) := rfl

example : decode64 "TW=u".toUTF8.data.toList = .error (.wrongLetter 2 61) := rfl

/-! ### Messages -/

/-- Why an embedded schema cannot be read. -/
inductive EmbeddedFault where
  | letters (fault : LetterFault)
  /-- Four bytes from this on are behind the end. -/
  | outside (start : Nat)
  /-- The message is told to start at a place where none starts. -/
  | unaligned (start : Nat)
deriving DecidableEq, Repr

/-- The name of an embedded schema. -/
def embeddedKey : String := "ARROW:schema"

/-- The wording of a fault. -/
def EmbeddedFault.message : EmbeddedFault → String
  | .letters fault =>
    s!"Unable to decode the encoded schema stored in {embeddedKey}, {fault.message}"
  | .outside start =>
    s!"Unable to get root as message stored in {embeddedKey}: RangeOutOfBounds " ++
      s!"\x7b range: {start}..{start + 4}, error_trace: ErrorTrace([]) \x7d"
  | .unaligned start =>
    s!"Unable to get root as message stored in {embeddedKey}: Unaligned " ++
      s!"\x7b position: {start}, unaligned_type: \"i32\", error_trace: ErrorTrace([]) \x7d"

/-- The message in bytes. A mark and its size may stand before it. -/
def unwrapped (bytes : List UInt8) : List UInt8 :=
  if 8 < bytes.length ∧ bytes.take 4 = [255, 255, 255, 255] then bytes.drop 8 else bytes

/-- What is wrong with the start of an embedded schema, if anything. It tells where to go on. -/
def embeddedFault? (text : String) : Option EmbeddedFault :=
  match decode64 text.toUTF8.data.toList with
  | .error fault => some (.letters fault)
  | .ok bytes =>
    let bytes := unwrapped bytes
    let start := littleEndian (bytes.take 4)
    if bytes.length < 4 then some (.outside 0)
    else if start % 4 ≠ 0 then some (.unaligned start)
    else if bytes.length < start + 4 then some (.outside start)
    else none

end SparseGraph.TableFile
