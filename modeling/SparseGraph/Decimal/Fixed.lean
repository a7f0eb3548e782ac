import SparseGraph.Decimal.Binary

namespace SparseGraph.Decimal

/-!
# Decimals with a fixed number of places

* `Binary.fixed` — a floating point value with a given number of places after the point: its exact
  value is rounded, a tie going to the even digit.
-/

/-- A whole number of units `10 ^ -places` with its point. -/
def withPoint (units places : Nat) : List Char :=
  let ds := Nat.toDigits 10 units
  let padded := List.replicate (places + 1 - ds.length) '0' ++ ds
  let whole := padded.length - places
  if places = 0 then padded else padded.take whole ++ '.' :: padded.drop whole

/-- The value with `places` digits after the point. The sign is kept also where all digits are
    zero. -/
def Binary.fixed (places : Nat) : Binary → List Char
  | .nan => ['N', 'a', 'N']
  | .infinite negative => (if negative then ['-'] else []) ++ ['i', 'n', 'f']
  | .finite negative significand exponent _ =>
    let units := ((Fraction.scaled significand 2 exponent).shift 10 places).round
    (if negative then ['-'] else []) ++ withPoint units places

/-- A tie goes to the even digit. -/
example : (Binary.finite false 1 (-1) true).fixed 0 = ['0'] := by decide

example : (Binary.finite true 3 (-1) false).fixed 0 = ['-', '2'] := by decide

end SparseGraph.Decimal
