import SparseGraph.Json.Node
import SparseGraph.Decimal.Reader
import SparseGraph.Text.Numeral

namespace SparseGraph.Json

open Decimal (Binary Layout)

/-!
# Numbers in JSON

A number without point and exponent is an integer if it fits into 64 bits, signed or unsigned; all
others are doubles. A double is read from the digits that fit into 64 bits and scaled by a power of
ten once, so the last place may differ from the nearest double.

* `Number` — an integer, a double, or a single that is only written;
* `Number.ofText?` — the number that a text denotes;
* `Number.render` — the text of a number.
-/

/-- A number of a JSON value. -/
inductive Number where
  | integer (i : Int)
  | double (x : Float)
  | single (x : Float32)

/-! ### Reading -/

/-- The leading digits of a number that fit into 64 bits, and what was left out. -/
structure Leading where
  significand : Nat
  /-- The power of ten of the last digit taken. -/
  exponent : Int

/-- Whether one more digit fits into 64 bits. -/
def fits (significand digit : Nat) : Bool :=
  10 * significand + digit ≤ Text.maxLong

/-- Take digits before the point. From the first that does not fit on, each only raises the power
    of ten. -/
def takeWhole (significand : Nat) : List Nat → Leading
  | [] => ⟨significand, 0⟩
  | d :: ds =>
    if fits significand d then takeWhole (10 * significand + d) ds
    else ⟨significand, (d :: ds).length⟩

/-- Take digits after the point. From the first that does not fit on, they are left out. -/
def takeFraction (lead : Leading) : List Nat → Leading
  | [] => lead
  | d :: ds =>
    if fits lead.significand d then
      takeFraction ⟨10 * lead.significand + d, lead.exponent - 1⟩ ds
    else lead

/-- The power of ten `10 ^ n` as a double. -/
def powerOfTen (n : Nat) : Float :=
  Float.ofScientific 1 false n

/-- Divide by `10 ^ n`, in steps of at most `10 ^ 308`. -/
def divideByPower (x : Float) (n : Nat) : Float :=
  if n ≤ 308 then x / powerOfTen n
  else if x == 0 then x
  else divideByPower (x / powerOfTen 308) (n - 308)
termination_by n

/-- The double `significand · 10 ^ exponent`, unless it is too large. -/
def scale? (significand : Nat) (exponent : Int) : Option Float :=
  let x := (UInt64.ofNat significand).toFloat
  if exponent < 0 then some (divideByPower x (-exponent).toNat)
  else if exponent ≤ 308 then
    let scaled := x * powerOfTen exponent.toNat
    if scaled.isInf then none else some scaled
  else if x == 0 then some x
  else none

/-- The largest exponent that is read; one beyond it makes the number zero or too large. -/
def maxExponent : Nat := 2147483647

/-- The number that digits denote. -/
def natOfDigits (ds : List Nat) : Nat :=
  ds.foldl (fun n d => 10 * n + d) 0

/-- The double that a text denotes, its sign aside. -/
def magnitude? (text : NumberText) : Option Float :=
  let lead := takeFraction (takeWhole 0 text.whole) text.fraction
  match text.exponent with
  | none => scale? lead.significand lead.exponent
  | some (negative, ds) =>
    let e := natOfDigits ds
    if maxExponent < e then
      if lead.significand ≠ 0 ∧ !negative then none else some 0
    else scale? lead.significand (lead.exponent + (if negative then -(e : Int) else e))

/-- The magnitude of the lowest signed number of 64 bits. -/
def lowestMagnitude : Nat := 9223372036854775808

/-- The number that a text denotes, unless it is too large for a double. -/
def Number.ofText? (text : NumberText) : Option Number :=
  let n := natOfDigits text.whole
  let whole := text.fraction.isEmpty && text.exponent.isNone
  if whole && !text.negative && n ≤ Text.maxLong then some (.integer n)
  else if whole && text.negative && 0 < n && n ≤ lowestMagnitude then some (.integer (-n))
  -- Also `-0` is a double, since no integer keeps its sign.
  else (magnitude? text).map fun x => .double (if text.negative then -x else x)

/-! ### Writing -/

/-- Doubles are written without exponent from `10 ^ -5` up to below `10 ^ 16`. -/
def doubleLayout : Layout := ⟨-5, 15⟩

/-- Singles are written without exponent from `10 ^ -6` up to below `10 ^ 13`. -/
def singleLayout : Layout := ⟨-6, 12⟩

/-- The text of a floating point value: its shortest decimal, and `null` if it is not finite. -/
def renderBinary (layout : Layout) : Binary → List Char
  | .finite negative significand exponent narrow =>
    (if negative then ['-'] else []) ++
      (Decimal.shortest significand exponent narrow).render layout
  | _ => ['n', 'u', 'l', 'l']

/-- The text of an integer. -/
def renderInteger (i : Int) : List Char :=
  (if i < 0 then ['-'] else []) ++ Text.digits i.natAbs

/-- The text of a number. -/
def Number.render : Number → List Char
  | .integer i => renderInteger i
  | .double x => renderBinary doubleLayout (.ofDouble x)
  | .single x => renderBinary singleLayout (.ofSingle x)

/-! ### Numbers as floating point values -/

/-- The number as a double. -/
def Number.toDouble : Number → Float
  | .integer i => if i < 0 then -(UInt64.ofNat i.natAbs).toFloat else (UInt64.ofNat i.natAbs).toFloat
  | .double x => x
  | .single x => Decimal.widen x

/-- The number as a single. -/
def Number.toSingle : Number → Float32
  | .integer i =>
    if i < 0 then -(UInt64.ofNat i.natAbs).toFloat32 else (UInt64.ofNat i.natAbs).toFloat32
  | .double x => (Decimal.Binary.ofDouble x).toSingle
  | .single x => x

end SparseGraph.Json
