namespace SparseGraph.Decimal

/-!
# Binary floating point values

A floating point word is decoded into a sign, a whole significand and a power of two, so that its
decimal text can be worked out in exact arithmetic.

* `Binary` — what a floating point word denotes;
* `Binary.ofBits` — the meaning of a word with given field widths;
* `widen` — a single as a double;
* `Fraction` — a non-negative quotient of two numbers.
-/

/-- What a floating point word denotes. -/
inductive Binary where
  | nan
  | infinite (negative : Bool)
  /-- The number `± significand · 2 ^ exponent`. The flag `narrow` says that the next smaller
      magnitude is only half as far away as the next greater one. -/
  | finite (negative : Bool) (significand : Nat) (exponent : Int) (narrow : Bool)
deriving DecidableEq, Repr

/-- The meaning of a word of one sign bit, `exponentBits` and `fractionBits`. -/
def Binary.ofBits (exponentBits fractionBits word : Nat) : Binary :=
  let fraction := word % (1 <<< fractionBits)
  let biased := (word >>> fractionBits) % (1 <<< exponentBits)
  let negative := (word >>> (fractionBits + exponentBits)) % 2 == 1
  let bias : Int := ((1 <<< (exponentBits - 1) : Nat) : Int) - 1 + fractionBits
  if biased + 1 = 1 <<< exponentBits then
    if fraction = 0 then .infinite negative else .nan
  -- The smallest exponent field has no leading bit, but the same power of two as the next one.
  else if biased = 0 then .finite negative fraction (1 - bias) false
  else .finite negative ((1 <<< fractionBits) + fraction) (biased - bias)
    (fraction == 0 && biased != 1)

/-- The meaning of a double. -/
def Binary.ofDouble (x : Float) : Binary :=
  ofBits 11 52 x.toBits.toNat

/-- The meaning of a single. -/
def Binary.ofSingle (x : Float32) : Binary :=
  ofBits 8 23 x.toBits.toNat

/-- A single as a double. Rounding only brings the significand to its place, since every single is a
    double. -/
def widen (x : Float32) : Float :=
  .ofModel <| .pack <|
    match x.toModel.unpack with
    | .finite sign significand exponent _ => .round .binary64 sign significand exponent
    | x => x

/-- A non-negative quotient of two numbers. -/
structure Fraction where
  num : Nat
  den : Nat
deriving DecidableEq, Repr

/-- The number `n · base ^ exponent`. -/
def Fraction.scaled (n base : Nat) (exponent : Int) : Fraction :=
  if 0 ≤ exponent then ⟨n * Nat.pow base exponent.toNat, 1⟩
  else ⟨n, Nat.pow base (-exponent).toNat⟩

/-- The quotient times `base ^ exponent`. -/
def Fraction.shift (q : Fraction) (base : Nat) (exponent : Int) : Fraction :=
  if 0 ≤ exponent then ⟨q.num * Nat.pow base exponent.toNat, q.den⟩
  else ⟨q.num, q.den * Nat.pow base (-exponent).toNat⟩

/-- The whole part of the quotient. -/
def Fraction.floor (q : Fraction) : Nat :=
  q.num / q.den

/-- The whole number nearest to the quotient; a tie goes to the even one. -/
def Fraction.round (q : Fraction) : Nat :=
  let below := q.num / q.den
  let rest := 2 * (q.num % q.den)
  if rest < q.den then below
  else if q.den < rest then below + 1
  else if below % 2 = 0 then below else below + 1

end SparseGraph.Decimal
