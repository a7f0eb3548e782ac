import SparseGraph.Decimal.Binary

namespace SparseGraph.Decimal

/-!
# The shortest decimal that reads back

Of the decimals that round to a given floating point value, the one with the fewest digits is
written, and of several of these the nearest. The decimals with `k` digits form a grid; if a point
of the grid rounds to the value, so does one of the two points on either side of the value.

* `Digits` — a decimal as its digits and the power of ten of the first digit;
* `roundsBack` — whether a grid point rounds to the value;
* `shortest` — the shortest decimal that rounds to the value;
* `Layout`, `Digits.render` — how digits and exponent are set out.
-/

/-- The decimal `d.ddd… · 10 ^ exponent`. -/
structure Digits where
  digits : List Char
  exponent : Int
deriving DecidableEq, Repr

/-- The number of decimal digits of `n`. -/
def decimalLength (n : Nat) : Nat :=
  (Nat.toDigits 10 n).length

/-- The power of ten of the first digit of a positive quotient. -/
def Fraction.magnitude (q : Fraction) : Int :=
  let guess : Int := (decimalLength q.num : Int) - decimalLength q.den
  let atGuess := q.shift 10 (-guess)
  if atGuess.den ≤ atGuess.num then guess else guess - 1

/-- Whether the grid point `c · 10 ^ unit` rounds to `significand · 2 ^ exponent`: it lies no
    farther away than half the gap on its side, the ends counting if the significand is even. -/
def roundsBack (significand : Nat) (exponent : Int) (narrow : Bool) (unit : Int) (c : Nat) :
    Bool :=
  -- Distances are counted in quarters of the gap above the value, so that all of them are whole.
  let step := (Fraction.scaled 1 2 exponent).shift 10 (-unit)
  let point := 4 * c * step.den
  let value := 4 * significand * step.num
  let reach := if value ≤ point then 2 * step.num else if narrow then step.num else 2 * step.num
  let distance := (point - value) + (value - point)
  if significand % 2 = 0 then distance ≤ reach else distance < reach

/-- The grid point nearest to `significand · 2 ^ exponent` among those next to it that round to
    it; of two that are equally near the even one. -/
def nearestPoint? (significand : Nat) (exponent : Int) (narrow : Bool) (unit : Int) :
    Option Nat :=
  let q := (Fraction.scaled significand 2 exponent).shift 10 (-unit)
  let below := q.floor
  let lower := roundsBack significand exponent narrow unit below
  let upper := roundsBack significand exponent narrow unit (below + 1)
  if lower && upper then some q.round
  else if lower then some below
  else if upper then some (below + 1)
  else none

/-- A whole number of units `10 ^ unit` as digits, without zeros at the end. -/
def Digits.ofPoint (c : Nat) (unit : Int) : Digits :=
  let ds := Nat.toDigits 10 c
  let kept := (ds.reverse.dropWhile (· == '0')).reverse
  ⟨if kept.isEmpty then ['0'] else kept, unit + (ds.length - 1 : Nat)⟩

/-- The shortest decimal that rounds to `significand · 2 ^ exponent`. Seventeen digits are enough
    for the values decoded here. -/
def shortest (significand : Nat) (exponent : Int) (narrow : Bool) : Digits :=
  if significand = 0 then ⟨['0'], 0⟩
  else
    let first := (Fraction.scaled significand 2 exponent).magnitude
    let hit := (List.range 17).findSome? fun (more : Nat) =>
      let unit := first - more
      (nearestPoint? significand exponent narrow unit).map (Digits.ofPoint · unit)
    hit.getD ⟨['0'], 0⟩

/-- For which exponents a decimal is written without an exponent. -/
structure Layout where
  smallest : Int
  largest : Int

/-- The digits after the first with a point before them, if there are any. -/
def pointed : List Char → List Char
  | [] => []
  | ds => '.' :: ds

/-- A decimal as text: with a point and at least one digit on both sides of it, or with a signed
    exponent behind the digits. -/
def Digits.render (layout : Layout) (d : Digits) : List Char :=
  if layout.smallest ≤ d.exponent ∧ d.exponent ≤ layout.largest then
    if d.exponent < 0 then
      ['0', '.'] ++ List.replicate ((-d.exponent).toNat - 1) '0' ++ d.digits
    else
      let whole := d.exponent.toNat + 1
      let padded := d.digits ++ List.replicate (whole - d.digits.length) '0'
      let fraction := d.digits.drop whole
      padded.take whole ++ '.' :: (if fraction.isEmpty then ['0'] else fraction)
  else
    d.digits.take 1 ++ pointed (d.digits.drop 1) ++
      ['e', if d.exponent < 0 then '-' else '+'] ++ Nat.toDigits 10 d.exponent.natAbs

example : (shortest 1 (-1) true).render ⟨-5, 15⟩ = ['0', '.', '5'] := by decide

example : Digits.render ⟨-5, 15⟩ ⟨['1', '5'], 15⟩ = "1500000000000000.0".toList := by decide

example : Digits.render ⟨-5, 15⟩ ⟨['1', '5'], 16⟩ = "1.5e+16".toList := by decide

end SparseGraph.Decimal
