import Mathlib.Algebra.Order.Field.Power
import Mathlib.Tactic.Linarith
import Mathlib.Tactic.Positivity
import Mathlib.Tactic.Ring
import SparseGraph.Decimal.Shortest

namespace SparseGraph.Decimal

/-!
# The shortest decimal is near

A decimal that rounds back to a positive value is positive, and at most half of the last place above
it; the shortest one is chosen among such decimals.

* `Fraction.value` — a quotient as a rational number;
* `roundsBack_bounds` — what is known of a decimal that rounds back to a value;
* `shortest_cases` — the shortest decimal is zero or such a one.
-/

variable {significand c : Nat} {exponent unit : Int} {narrow : Bool}

/-- The value of a quotient. -/
def Fraction.value (q : Fraction) : ℚ :=
  q.num / q.den

theorem Fraction.den_scaled_pos (n base : Nat) (hbase : 0 < base) (exponent : Int) :
    0 < (Fraction.scaled n base exponent).den := by
  unfold scaled
  split_ifs
  · exact Nat.one_pos
  · exact Nat.pow_pos hbase

theorem Fraction.den_shift_pos (q : Fraction) (hq : 0 < q.den) (base : Nat) (hbase : 0 < base)
    (exponent : Int) : 0 < (q.shift base exponent).den := by
  unfold shift
  split_ifs
  · exact hq
  · exact Nat.mul_pos hq (Nat.pow_pos hbase)

theorem Fraction.value_shift (q : Fraction) (base : Nat) (exponent : Int) :
    (q.shift base exponent).value = q.value * (base : ℚ) ^ exponent := by
  unfold shift value
  split_ifs with h
  · obtain ⟨k, rfl⟩ := Int.eq_ofNat_of_zero_le h
    show ((q.num * base ^ k : Nat) : ℚ) / q.den = _
    rw [Nat.cast_mul, Nat.cast_pow, zpow_natCast]
    ring
  · obtain ⟨k, hk⟩ := Int.eq_ofNat_of_zero_le (show 0 ≤ -exponent by omega)
    rw [hk, show exponent = -(k : Int) by omega, zpow_neg, zpow_natCast]
    show (q.num : ℚ) / ((q.den * base ^ k : Nat) : ℚ) = _
    rw [Nat.cast_mul, Nat.cast_pow, ← div_div, div_eq_mul_inv]

theorem Fraction.scaled_eq_shift (n base : Nat) (exponent : Int) :
    Fraction.scaled n base exponent = Fraction.shift ⟨n, 1⟩ base exponent := by
  unfold scaled shift
  simp

/-- **A grid point that rounds back** to a value is positive if the value is, and at most half a gap
    above it. -/
theorem roundsBack_bounds (h : roundsBack significand exponent narrow unit c = true)
    (hpos : 0 < significand) :
    0 < c ∧ (c : ℚ) * 10 ^ unit ≤ (significand + 1 / 2) * 2 ^ exponent := by
  obtain ⟨step, hstep⟩ : ∃ q, q = (Fraction.scaled 1 2 exponent).shift 10 (-unit) := ⟨_, rfl⟩
  have hden : 0 < step.den :=
    hstep ▸ Fraction.den_shift_pos _ (Fraction.den_scaled_pos 1 2 (by decide) _) 10 (by decide) _
  have hvalue : step.value = 2 ^ exponent * 10 ^ (-unit) := by
    rw [hstep, Fraction.value_shift, Fraction.scaled_eq_shift, Fraction.value_shift]
    simp [Fraction.value]
  have hnum : 0 < step.num := by
    refine Nat.pos_of_ne_zero fun hzero => ?_
    have hpos : (0 : ℚ) < step.value := by
      rw [hvalue]
      positivity
    rw [Fraction.value, hzero] at hpos
    simp at hpos
  have hnear : 4 * c * step.den ≤ 4 * significand * step.num + 2 * step.num ∧
      4 * significand * step.num ≤ 4 * c * step.den + 2 * step.num := by
    unfold roundsBack at h
    dsimp only at h
    rw [← hstep] at h
    split_ifs at h <;> rw [decide_eq_true_iff] at h <;> omega
  constructor
  · refine Nat.pos_of_ne_zero ?_
    rintro rfl
    have := hnear.2
    nlinarith
  · have hcast : (4 : ℚ) * c * step.den ≤ 4 * significand * step.num + 2 * step.num := by
      exact_mod_cast hnear.1
    have hdenQ : (0 : ℚ) < step.den := by exact_mod_cast hden
    have hle : (c : ℚ) ≤ (significand + 1 / 2) * step.value := by
      rw [Fraction.value, mul_div_assoc', le_div_iff₀ hdenQ]
      linarith
    rw [hvalue, zpow_neg, ← mul_assoc] at hle
    exact (le_mul_inv_iff₀ (by positivity)).1 hle

theorem Fraction.round_eq (q : Fraction) : q.round = q.floor ∨ q.round = q.floor + 1 := by
  unfold round floor
  dsimp only
  split_ifs <;> simp

theorem roundsBack_of_nearestPoint? (h : nearestPoint? significand exponent narrow unit = some c) :
    roundsBack significand exponent narrow unit c = true := by
  unfold nearestPoint? at h
  dsimp only at h
  split_ifs at h with hboth hlower hupper
  · rw [Bool.and_eq_true] at hboth
    obtain rfl := Option.some.inj h
    rcases Fraction.round_eq ((Fraction.scaled significand 2 exponent).shift 10 (-unit)) with hr | hr
    · rw [hr]
      exact hboth.1
    · rw [hr]
      exact hboth.2
  · obtain rfl := Option.some.inj h
    exact hlower
  · obtain rfl := Option.some.inj h
    exact hupper

/-- **The shortest decimal** is a grid point that rounds back, unless it is zero. -/
theorem shortest_cases (significand : Nat) (exponent : Int) (narrow : Bool) :
    shortest significand exponent narrow = ⟨['0'], 0⟩ ∨
      0 < significand ∧ ∃ c unit, roundsBack significand exponent narrow unit c = true ∧
        shortest significand exponent narrow = .ofPoint c unit := by
  unfold shortest
  split_ifs with hzero
  · exact Or.inl rfl
  · dsimp only
    generalize hhit : List.findSome? _ _ = hit
    cases hit with
    | none => exact Or.inl rfl
    | some d =>
      obtain ⟨more, _, hmore⟩ := List.exists_of_findSome?_eq_some hhit
      obtain ⟨c, hc, rfl⟩ := Option.map_eq_some_iff.1 hmore
      exact Or.inr ⟨Nat.pos_of_ne_zero hzero, c, _, roundsBack_of_nearestPoint? hc, rfl⟩

end SparseGraph.Decimal
