import SparseGraph.Json.Number
import SparseGraph.Proofs.Decimal.Doubles

namespace SparseGraph.Json

open Decimal
open Float.Model (UnpackedFloat)
open Float.Model.UnpackedFloat (roundWithAccuracy)

/-!
# Numbers that are not too great

A number is read by scaling a whole number of 64 bits with a power of ten, which rounds up to three
times: the number, the power and their product. If its value is far enough below the greatest
double, the product does not overflow.

* `IsNear` — powers of ten as doubles are near to them;
* `surelyRead`, `isSome_scale?` — values so small that scaling does not fail;
* `NumberText.value` — the value that a text denotes, exactly;
* `isSome_ofText?` — a text is read if this is not too great.
-/

/-! ### Powers of ten -/

/-- The power of ten as a double has 53 bits, and is greater than it is by a small part only. -/
def IsNear (n : Nat) : Prop :=
  ∃ sign m e h, (powerOfTen n).toModel.unpack = .finite sign m e h ∧ 2 ^ 52 ≤ m ∧
    (m : ℚ) * 2 ^ e ≤ 10 ^ n * (1 + 2 ^ (-53 : Int))

/-- Whether the power of ten is a double of 53 bits. -/
def isExact (n : Nat) : Bool :=
  match (powerOfTen n).toModel.unpack with
  | .finite _ m e _ => decide (2 ^ 52 ≤ m ∧ m * 2 ^ e.toNat = 10 ^ n * 2 ^ (-e).toNat)
  | _ => false

theorem isExact_of_lt : ∀ n < 23, isExact n = true := by
  decide +kernel

/-- The powers of ten that are doubles. -/
theorem isNear_of_lt {n : Nat} (h : n < 23) : IsNear n := by
  have hexact := isExact_of_lt n h
  unfold isExact at hexact
  split at hexact
  next sign m e hm heq =>
    obtain ⟨hlong, hvalue⟩ := of_decide_eq_true hexact
    refine ⟨sign, m, e, hm, heq, hlong, ?_⟩
    have hcast : (m : ℚ) * 2 ^ e.toNat = 10 ^ n * 2 ^ (-e).toNat := by exact_mod_cast hvalue
    have hpow : (2 : ℚ) ^ e * 2 ^ (-e).toNat = 2 ^ e.toNat := by
      rw [← zpow_natCast, ← zpow_natCast, ← zpow_add₀ two_ne_zero]
      congr 1
      omega
    have hvalue : (m : ℚ) * 2 ^ e = 10 ^ n := by
      rw [← hpow, ← mul_assoc] at hcast
      exact mul_right_cancel₀ (by positivity) hcast
    rw [hvalue]
    exact le_mul_of_one_le_right (by positivity) (by norm_num)
  next => cases hexact

/-- The other powers of ten are rounded. -/
theorem isNear_of_le {n : Nat} (hlow : 23 ≤ n) (hhigh : n < 309) : IsNear n := by
  have hpower : powerOfTen n = ⟨.ofScientific 1 (Int.ofNat n)⟩ := by
    unfold powerOfTen Float.ofScientific
    rw [dif_neg (by omega)]
    rfl
  have hlimit : (2 : Int) ^ 11 = 2048 := by decide
  have hunpack : (powerOfTen n).toModel.unpack = (Float.Model.pack
      (roundWithAccuracy .binary64 .positive (2 ^ 53 * 10 ^ n) (-53) .exact)).unpack := by
    rw [hpower]
    show (Float.Model.pack (UnpackedFloat.ofScientific .binary64 1 n)).unpack = _
    unfold UnpackedFloat.ofScientific
    rw [dif_neg (by decide), if_neg (show ¬ (n : Int) > 2 ^ 11 by omega),
      if_neg (show ¬ (n : Int) < -(2 ^ 11 + Nat.log2 1) by omega), if_pos (by omega)]
    rfl
  have hpos : 0 < 2 ^ 53 * 10 ^ n := by positivity
  have hvalue : ((2 ^ 53 * 10 ^ n : Nat) : ℚ) * 2 ^ (-53 : Int) = 10 ^ n := by
    push_cast
    rw [mul_right_comm]
    norm_num
  have hround : IsRounding (2 ^ 53 * 10 ^ n) (-53)
      (roundWithAccuracy .binary64 .positive (2 ^ 53 * 10 ^ n) (-53) .exact) := by
    have hlog : 53 ≤ (2 ^ 53 * 10 ^ n).log2 :=
      (Nat.le_log2 hpos.ne').2 (Nat.le_mul_of_pos_right _ (by positivity))
    refine isRounding_roundWithAccuracy .positive hpos ?_
    unfold place
    omega
  have hw : Within 971
      (roundWithAccuracy .binary64 .positive (2 ^ 53 * 10 ^ n) (-53) .exact) := by
    refine hround.within hpos (by decide) ?_
    have hnat : 10 ^ 308 + 2 ^ 970 < 2 ^ 54 * 2 ^ 970 := by decide +kernel
    have hcast : (10 : ℚ) ^ 308 + 2 ^ (970 : Int) < 2 ^ 54 * 2 ^ (970 : Int) := by
      exact_mod_cast hnat
    rw [hvalue, sub_mul, one_mul]
    exact (pow_le_pow_right₀ (by norm_num) (by omega)).trans_lt (lt_sub_iff_add_lt.2 hcast)
  have hone : (1 : ℚ) ≤ 10 ^ n := one_le_pow₀ (by norm_num)
  obtain ⟨sign, m, e, hm, heq, hlong⟩ := hround.exists_long hpos (by
    rw [hvalue]
    exact (zpow_le_one_of_nonpos₀ one_le_two (by decide)).trans hone)
  have hle := hround.magnitude_le hpos (by
    rw [hvalue]
    exact (zpow_le_one_of_nonpos₀ one_le_two (by decide)).trans hone)
  rw [heq, hvalue] at hle
  exact ⟨sign, m, e, hm, by rw [hunpack, hw.unpack_pack, heq], hlong, hle⟩

/-! ### Scaling -/

/-- The greatest values that are surely read: rounding each of two factors, and then their product,
    leaves them below infinity. -/
def surelyRead : ℚ :=
  (2 ^ 54 - 5) * 2 ^ (970 : Int)

theorem surelyRead_lt : surelyRead < 10 ^ (309 : Int) := by
  have hpow : 2 ^ 54 * 2 ^ 970 < 10 ^ 309 := by decide +kernel
  have hcast : (2 : ℚ) ^ 54 * 2 ^ (970 : Int) < 10 ^ (309 : Int) := by exact_mod_cast hpow
  exact (mul_lt_mul_of_pos_right (by norm_num) (by positivity)).trans hcast

/-- **Scaling does not fail** if the value is not too great. -/
theorem isSome_scale? {n : Nat} {e : Int} (hn : n ≤ Text.maxLong)
    (h : n * (10 : ℚ) ^ e ≤ surelyRead) : (scale? n e).isSome = true := by
  unfold scale?
  dsimp only
  split_ifs with hneg hle hinf hzero
  · rfl
  · obtain ⟨k, rfl⟩ := Int.eq_ofNat_of_zero_le (not_lt.1 hneg)
    exfalso
    have hk : k < 309 := by omega
    obtain ⟨hw, hmag⟩ := within_toFloat (Nat.lt_of_le_of_lt hn (by decide))
    obtain ⟨sign, m, e, hm, hpower, hlong, hnear⟩ : IsNear k :=
      (lt_or_ge k 23).elim isNear_of_lt fun hlow => isNear_of_le hlow hk
    have hprod : magnitude (UInt64.ofNat n).toFloat.toModel.unpack * (m * 2 ^ e) <
        (2 ^ 54 - 1) * 2 ^ (970 : Int) :=
      calc _ ≤ (n : ℚ) * (1 + 2 ^ (-53 : Int)) * (10 ^ k * (1 + 2 ^ (-53 : Int))) :=
            mul_le_mul hmag hnear (by positivity) (by positivity)
        _ = (n : ℚ) * 10 ^ (k : Int) * ((1 + 2 ^ (-53 : Int)) * (1 + 2 ^ (-53 : Int))) := by
            rw [zpow_natCast]
            ring
        _ ≤ surelyRead * ((1 + 2 ^ (-53 : Int)) * (1 + 2 ^ (-53 : Int))) :=
            mul_le_mul_of_nonneg_right h (by positivity)
        _ = (2 ^ 54 - 5) * ((1 + 2 ^ (-53 : Int)) * (1 + 2 ^ (-53 : Int))) * 2 ^ (970 : Int) := by
            unfold surelyRead
            ring
        _ < (2 ^ 54 - 1) * 2 ^ (970 : Int) :=
            mul_lt_mul_of_pos_right (by norm_num) (by positivity)
    have hmul := hw.mul sign hm hlong hprod
    have hunpack : ((UInt64.ofNat n).toFloat * powerOfTen k).toModel.unpack =
        UnpackedFloat.mul .binary64 (UInt64.ofNat n).toFloat.toModel.unpack (.finite sign m e hm) := by
      show (Float.Model.pack (UnpackedFloat.mul .binary64 _ (powerOfTen k).toModel.unpack)).unpack = _
      rw [hpower, hmul.unpack_pack]
    have hisInf : ((UInt64.ofNat n).toFloat * powerOfTen k).toModel.unpack.isInf = true := hinf
    rw [hunpack, hmul.isInf_eq_false] at hisInf
    cases hisInf
  · rfl
  · rfl
  · exfalso
    have hpos : 0 < n := by
      refine Nat.pos_of_ne_zero ?_
      rintro rfl
      exact hzero (by decide +kernel)
    have hvalue : (10 : ℚ) ^ (309 : Int) ≤ n * 10 ^ e :=
      calc (10 : ℚ) ^ (309 : Int) ≤ 10 ^ e := zpow_le_zpow_right₀ (by norm_num) (by omega)
        _ ≤ n * 10 ^ e := le_mul_of_one_le_left (by positivity) (by exact_mod_cast hpos)
    exact absurd h (not_le.2 (surelyRead_lt.trans_le hvalue))

/-- The number that digits denote behind others. -/
theorem le_foldl_digits (s : Nat) (ds : List Nat) :
    10 ^ ds.length * s ≤ ds.foldl (fun n d => 10 * n + d) s := by
  induction ds generalizing s with
  | nil => simp
  | cons d ds ih =>
    refine le_trans ?_ (ih (10 * s + d))
    rw [List.length_cons, pow_succ]
    nlinarith [Nat.zero_le (10 ^ ds.length * d)]

theorem takeWhole_of_le {s : Nat} {ds : List Nat}
    (h : ds.foldl (fun n d => 10 * n + d) s ≤ Text.maxLong) :
    takeWhole s ds = ⟨ds.foldl (fun n d => 10 * n + d) s, 0⟩ := by
  induction ds generalizing s with
  | nil => rfl
  | cons d ds ih =>
    have hle : 10 * s + d ≤ Text.maxLong :=
      (Nat.le_mul_of_pos_left _ (by positivity)).trans ((le_foldl_digits _ ds).trans h)
    unfold takeWhole
    rw [if_pos (show fits s d = true from decide_eq_true hle)]
    exact ih h

/-- Taking digits after the point never makes the value greater than all of them do. -/
theorem takeFraction_le (lead : Leading) (ds : List Nat) (h : lead.significand ≤ Text.maxLong) :
    (takeFraction lead ds).significand ≤ Text.maxLong ∧
      ((takeFraction lead ds).significand : ℚ) * 10 ^ (takeFraction lead ds).exponent ≤
        (ds.foldl (fun n d => 10 * n + d) lead.significand : Nat) *
          10 ^ (lead.exponent - ds.length) := by
  induction ds generalizing lead with
  | nil =>
    refine ⟨h, le_of_eq ?_⟩
    simp [takeFraction]
  | cons d ds ih =>
    unfold takeFraction
    split_ifs with hfits
    · have hlead : 10 * lead.significand + d ≤ Text.maxLong := of_decide_eq_true hfits
      obtain ⟨hle, hvalue⟩ := ih ⟨10 * lead.significand + d, lead.exponent - 1⟩ hlead
      refine ⟨hle, hvalue.trans (le_of_eq ?_)⟩
      rw [List.foldl_cons, List.length_cons]
      congr 2
      push_cast
      ring
    · refine ⟨h, ?_⟩
      have hfold := le_foldl_digits lead.significand (d :: ds)
      have hcast : (10 : ℚ) ^ (d :: ds).length * lead.significand ≤
          ((d :: ds).foldl (fun n d => 10 * n + d) lead.significand : Nat) := by
        exact_mod_cast hfold
      have hpow : (10 : ℚ) ^ lead.exponent =
          10 ^ (d :: ds).length * 10 ^ (lead.exponent - (d :: ds).length) := by
        rw [← zpow_natCast, ← zpow_add₀ (by norm_num)]
        congr 1
        ring
      calc (lead.significand : ℚ) * 10 ^ lead.exponent
          = 10 ^ (d :: ds).length * lead.significand *
              10 ^ (lead.exponent - (d :: ds).length) := by rw [hpow]; ring
        _ ≤ _ := mul_le_mul_of_nonneg_right hcast (by positivity)

/-- The power of ten that a text gives. -/
def NumberText.tens (t : NumberText) : Int :=
  match t.exponent with
  | none => 0
  | some (negative, ds) => if negative then -(natOfDigits ds : Int) else natOfDigits ds

/-- The value of a text, its sign aside. -/
def NumberText.value (t : NumberText) : ℚ :=
  (natOfDigits (t.whole ++ t.fraction) : Nat) * 10 ^ (t.tens - t.fraction.length)

theorem isSome_magnitude? {t : NumberText} (hwhole : natOfDigits t.whole ≤ Text.maxLong)
    (htens : t.tens ≤ maxExponent) (hvalue : t.value ≤ surelyRead) :
    (magnitude? t).isSome = true := by
  have htake : takeWhole 0 t.whole = ⟨natOfDigits t.whole, 0⟩ := takeWhole_of_le hwhole
  obtain ⟨hle, hlead⟩ := takeFraction_le ⟨natOfDigits t.whole, 0⟩ t.fraction hwhole
  have hscaled : ((takeFraction ⟨natOfDigits t.whole, 0⟩ t.fraction).significand : ℚ) *
      10 ^ ((takeFraction ⟨natOfDigits t.whole, 0⟩ t.fraction).exponent + t.tens) ≤ surelyRead := by
    refine le_trans ?_ hvalue
    unfold NumberText.value natOfDigits
    rw [zpow_add₀ (by norm_num), ← mul_assoc, List.foldl_append]
    calc _ ≤ _ := mul_le_mul_of_nonneg_right hlead (by positivity)
      _ = _ := by
        rw [mul_assoc, ← zpow_add₀ (by norm_num)]
        congr 2
        ring
  unfold magnitude?
  dsimp only
  rw [htake]
  unfold NumberText.tens at hscaled htens
  split
  next hnone =>
    rw [hnone] at hscaled
    exact isSome_scale? hle (by simpa using hscaled)
  next negative ds hsome =>
    rw [hsome] at hscaled htens
    dsimp only at hscaled htens ⊢
    by_cases hlarge : maxExponent < natOfDigits ds
    · cases negative with
      | true => simp [hlarge]
      | false => exact absurd (Int.ofNat_lt.2 hlarge) (not_lt.2 htens)
    · rw [if_neg hlarge]
      exact isSome_scale? hle hscaled

theorem isSome_ofText? {t : NumberText} (hwhole : natOfDigits t.whole ≤ Text.maxLong)
    (htens : t.tens ≤ maxExponent) (hvalue : t.value ≤ surelyRead) :
    (Number.ofText? t).isSome = true := by
  unfold Number.ofText?
  dsimp only
  split
  · rfl
  · split
    · rfl
    · rw [Option.isSome_map]
      exact isSome_magnitude? hwhole htens hvalue

end SparseGraph.Json
