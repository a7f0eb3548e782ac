namespace SparseGraph.Text

/-!
# Decimal numerals

A count or a vertex is written in ASCII digits, leading zeros allowed, with one optional `+` in
front, and must not exceed a bound. Reading stops at the first fault from the left.

* `NumeralFault` — why a text is no numeral;
* `readNumeral` — the number that a text denotes;
* `digits` — the numeral of a number.
-/

/-- The largest number of 32 bits. -/
def maxWord : Nat := 4294967295

/-- The largest number of 64 bits. -/
def maxLong : Nat := 18446744073709551615

/-- Why a text is no numeral. -/
inductive NumeralFault where
  /-- There is nothing to read. -/
  | empty
  /-- A character is no digit, or a sign stands alone. -/
  | digit
  /-- The number exceeds the bound. -/
  | overflow
deriving DecidableEq, Repr

/-- What the fault is called in a message. -/
def NumeralFault.message : NumeralFault → String
  | .empty => "cannot parse integer from empty string"
  | .digit => "invalid digit found in string"
  | .overflow => "number too large to fit in target type"

/-- The value of an ASCII digit. -/
def digitValue? (c : Char) : Option Nat :=
  if '0' ≤ c ∧ c ≤ '9' then some (c.toNat - '0'.toNat) else none

/-- Read digits after those that denote `value`, staying within `bound`. -/
def readDigits (bound : Nat) (value : Nat) : List Char → Except NumeralFault Nat
  | [] => .ok value
  | c :: rest =>
    match digitValue? c with
    | none => .error .digit
    | some d =>
      if bound < 10 * value + d then .error .overflow else readDigits bound (10 * value + d) rest

/-- The number that a text denotes, at most `bound`. -/
def readNumeral (bound : Nat) : List Char → Except NumeralFault Nat
  | [] => .error .empty
  | ['+'] => .error .digit
  | '+' :: rest => readDigits bound 0 rest
  | text => readDigits bound 0 text

/-- The 32-bit number that a text denotes. -/
def readWord (text : List Char) : Except NumeralFault UInt32 :=
  (readNumeral maxWord text).map UInt32.ofNat

/-- The numeral of `n`: its decimal digits without leading zeros. -/
def digits (n : Nat) : List Char :=
  Nat.toDigits 10 n

example : readNumeral maxWord ['+', '0', '7'] = .ok 7 := rfl

example : readNumeral maxWord ['-', '7'] = .error .digit := rfl

/-- The bound is checked digit by digit, so what follows is not looked at. -/
example : readNumeral 255 ['2', '5', '6', 'x'] = .error .overflow := rfl

end SparseGraph.Text
