import SparseGraph.Decimal.Shortest

namespace SparseGraph.Decimal

/-!
# Reading singles

A single is written as a decimal with an optional sign, point and exponent, where at least one
digit stands before the exponent, or as a word for infinity or for no number, in any case.

* `Literal` — a decimal as it is written;
* `singleWord` — the word of the single nearest to a quotient;
* `Binary.toSingle` — the single nearest to a floating point value;
* `readSingle?` — the single nearest to the decimal that a text denotes.
-/

/-- The decimal `digits · 10 ^ exponent`. -/
structure Literal where
  digits : Nat
  exponent : Int
deriving DecidableEq, Repr

/-- The number that ASCII digits denote. -/
def digitsValue (cs : List Char) : Nat :=
  cs.foldl (fun n c => 10 * n + (c.toNat - '0'.toNat)) 0

/-- The exponent at the end of a decimal, 0 if there is none. -/
def readExponent? : List Char → Option Int
  | [] => some 0
  | e :: cs =>
    let digits (cs : List Char) : Option Nat :=
      if cs.isEmpty || !cs.all Char.isDigit then none else some (digitsValue cs)
    if e = 'e' ∨ e = 'E' then
      match cs with
      | '-' :: cs => (digits cs).map fun n => -(n : Int)
      | '+' :: cs => (digits cs).map Int.ofNat
      | cs => (digits cs).map Int.ofNat
    else none

/-- A decimal without sign. -/
def readLiteral? (cs : List Char) : Option Literal :=
  let whole := cs.takeWhile Char.isDigit
  let rest := cs.dropWhile Char.isDigit
  let (fraction, rest) :=
    match rest with
    | '.' :: rest => (rest.takeWhile Char.isDigit, rest.dropWhile Char.isDigit)
    | rest => ([], rest)
  if whole.isEmpty && fraction.isEmpty then none
  else
    (readExponent? rest).map fun e => ⟨digitsValue (whole ++ fraction), e - fraction.length⟩

/-- The power of two of the first binary digit of a positive quotient. -/
def Fraction.log2 (q : Fraction) : Int :=
  let guess : Int := (q.num.log2 : Int) - q.den.log2
  let atGuess := q.shift 2 (-guess)
  if atGuess.den ≤ atGuess.num then guess else guess - 1

/-- The word of infinity. -/
def infinityWord : Nat := 0x7f800000

/-- The word of the single nearest to a positive quotient. The significand, 24 bits of it unless the
    value is below the normal ones, is rounded, a tie going to the even one; if it grows by a bit,
    the carry reaches the exponent field. -/
def singleWord (q : Fraction) : Nat :=
  let unit := max (q.log2 - 23) (-149)
  min infinityWord (((unit + 149).toNat <<< 23) + (q.shift 2 (-unit)).round)

/-- The single nearest to a floating point value. -/
def Binary.toSingle : Binary → Float32
  | .nan => 0 / 0
  | .infinite negative => if negative then -(1 / 0) else 1 / 0
  | .finite negative significand exponent _ =>
    let word := if significand = 0 then 0 else singleWord (.scaled significand 2 exponent)
    let magnitude := Float32.ofBits (UInt32.ofNat word)
    if negative then -magnitude else magnitude

/-- The single nearest to a decimal. Decimals far beyond the largest single are infinite, and those
    far below the smallest are 0. -/
def Literal.toSingle (l : Literal) : Float32 :=
  let top := decimalLength l.digits + l.exponent
  let word :=
    if l.digits = 0 ∨ top < -60 then 0
    else if 60 < top then infinityWord
    else singleWord (.scaled l.digits 10 l.exponent)
  Float32.ofBits (UInt32.ofNat word)

/-- A single without sign. -/
def readMagnitude? (cs : List Char) : Option Float32 :=
  match readLiteral? cs with
  | some l => some l.toSingle
  | none =>
    let word := String.ofList (cs.map Char.toLower)
    if word = "inf" ∨ word = "infinity" then some (1 / 0)
    else if word = "nan" then some (0 / 0)
    else none

/-- The single nearest to the decimal that a text denotes. -/
def readSingle? : List Char → Option Float32
  | '-' :: cs => (readMagnitude? cs).map fun x => -x
  | '+' :: cs => readMagnitude? cs
  | cs => readMagnitude? cs

end SparseGraph.Decimal
