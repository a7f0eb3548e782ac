import SparseGraph.Decimal.Binary

namespace SparseGraph.Rank

/-!
# Arithmetic of ranks

Ranks are computed in one kind of number and the mass of dead ends is summed in a wider kind. The
iteration is written for any two kinds, so that it can be run in floating point and be reasoned
about in exact numbers.

* `Arithmetic` — the operations that the iteration uses;
* `floating` — singles for the ranks and doubles for the sum;
* `exact` — rational numbers for both.
-/

/-- The operations that the iteration uses: on ranks, on sums, and between the two. -/
structure Arithmetic (R W : Type) where
  zero : R
  one : R
  ofNat : Nat → R
  add : R → R → R
  sub : R → R → R
  mul : R → R → R
  div : R → R → R
  /-- Whether the first number differs from the second by more than the third. -/
  differsBy : R → R → R → Bool
  sumZero : W
  sumAdd : W → W → W
  widen : R → W
  /-- A sum divided by a count, as a rank. -/
  share : W → Nat → R

/-- Singles for the ranks and doubles for the sum. -/
def floating : Arithmetic Float32 Float where
  zero := 0
  one := 1
  ofNat := Float32.ofNat
  add := (· + ·)
  sub := (· - ·)
  mul := (· * ·)
  div := (· / ·)
  differsBy x y bound := bound < (x - y).abs
  sumZero := 0
  sumAdd := (· + ·)
  widen := Decimal.widen
  share sum count := (sum / Float.ofNat count).toFloat32

/-- Rational numbers for ranks and sum, without any rounding. -/
def exact : Arithmetic Rat Rat where
  zero := 0
  one := 1
  ofNat n := n
  add := (· + ·)
  sub := (· - ·)
  mul := (· * ·)
  div := (· / ·)
  differsBy x y bound := bound < x - y || bound < y - x
  sumZero := 0
  sumAdd := (· + ·)
  widen := id
  share sum count := sum / count

end SparseGraph.Rank
