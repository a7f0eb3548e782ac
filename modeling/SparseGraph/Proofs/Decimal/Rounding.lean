import Mathlib
import SparseGraph.Decimal.Binary

namespace SparseGraph.Decimal

open Float.Model (Format UnpackedFloat totalExponent)
open Float.Model.UnpackedFloat

/-!
# Rounding to doubles

A significand and a power of two are rounded by dropping low bits, and once more if the result needs
one bit more than before. What comes out lies no farther from the number than one half of its last
place, or is infinite.

* `cut`, `roundedMantissa_cut` — what is left of a significand without its last bits;
* `place`, `Placed` — the power of two of the last place, and values that can stand in a double;
* `IsRounding`, `isRounding_round` — what rounding promises;
* `Within`, `IsRounding.within` — finite values up to a place, and numbers that are rounded to them;
* `Within.unpack_pack` — such values are packed into a double without loss.
-/

variable {m k : Nat} {e top : Int} {sign : Sign}

/-! ### Dropping bits -/

/-- A significand without its last `k` bits, and what is known of these. -/
def cut (m k : Nat) : ExtendedMantissa :=
  ExtendedMantissa.ofMantissaAndAccuracy m .exact >>> k

theorem mantissa_cut (m k : Nat) : (cut m k).mantissa = m / 2 ^ k := by
  show (k.repeat ExtendedMantissa.shiftRightOne _).mantissa = _
  induction k with
  | zero => exact (Nat.div_one m).symm
  | succ k ih =>
    show (k.repeat ExtendedMantissa.shiftRightOne _).mantissa / 2 = _
    rw [ih, Nat.div_div_eq_div_mul, Nat.pow_succ]

/-- The round bit stands for half a unit. -/
theorem le_of_roundBit_cut (h : (cut m k).roundBit = true) : 2 ^ k ≤ 2 * (m % 2 ^ k) := by
  cases k with
  | zero => cases h
  | succ k =>
    have hodd : ((cut m k).mantissa % 2 != 0) = true := h
    rw [mantissa_cut, bne_iff_ne] at hodd
    have hone : m / 2 ^ k % 2 = 1 := Nat.mod_two_ne_zero.1 hodd
    rw [Nat.mod_pow_succ, hone, Nat.pow_succ]
    omega

theorem roundedMantissa_bounds (em : ExtendedMantissa) :
    em.mantissa ≤ em.roundedMantissa ∧
      em.roundedMantissa ≤ em.mantissa + em.roundBit.toNat := by
  obtain ⟨m, round, sticky⟩ := em
  cases round <;> cases sticky <;>
    simp [ExtendedMantissa.roundedMantissa, ExtendedMantissa.accuracy,
      Accuracy.roundToNearestEven]
  omega

/-- **Rounding** adds a unit only if at least half a unit was dropped. -/
theorem roundedMantissa_cut (m k : Nat) :
    m / 2 ^ k ≤ (cut m k).roundedMantissa ∧ (cut m k).roundedMantissa ≤ m / 2 ^ k + 1 ∧
      2 * 2 ^ k * (cut m k).roundedMantissa ≤ 2 * m + 2 ^ k := by
  obtain ⟨hlow, hhigh⟩ := roundedMantissa_bounds (cut m k)
  rw [mantissa_cut] at hlow hhigh
  have hm := Nat.div_add_mod m (2 ^ k)
  have hadded : 2 * (2 ^ k * (cut m k).roundBit.toNat) ≤ 2 * (m % 2 ^ k) + 2 ^ k := by
    cases hbit : (cut m k).roundBit with
    | false => simp
    | true =>
      have hhalf := le_of_roundBit_cut hbit
      rw [Bool.toNat_true]
      omega
  refine ⟨hlow, hhigh.trans (Nat.add_le_add_left (Bool.toNat_le _) _), ?_⟩
  calc 2 * 2 ^ k * (cut m k).roundedMantissa
      ≤ 2 * 2 ^ k * (m / 2 ^ k + (cut m k).roundBit.toNat) := Nat.mul_le_mul_left _ hhigh
    _ = 2 * (2 ^ k * (m / 2 ^ k)) + 2 * (2 ^ k * (cut m k).roundBit.toNat) := by ring
    _ ≤ 2 * m + 2 ^ k := by omega

/-! ### One rounding -/

/-- The place of the last bit that a double has of `m · 2 ^ e`. -/
def place (m : Nat) (e : Int) : Int :=
  max (m.log2 + e - 52) (-1074)

theorem targetExponent_eq (m : Nat) (e : Int) :
    Format.binary64.targetExponent (totalExponent m e) = place m e := by
  have hbits : (Format.binary64.mantissaBits : Int) = 53 := by decide
  have hleast : Format.binary64.minExponent = -1074 := by decide
  unfold Format.targetExponent totalExponent place
  rw [hbits, hleast]
  omega

/-- A significand and its place as they stand in a double: of at most 53 bits, and of fewer only at
    the last place. -/
structure Placed (m : Nat) (e : Int) : Prop where
  lt : m < 2 ^ 53
  least_le : -1074 ≤ e
  leading : 2 ^ 52 ≤ m ∨ e = -1074

/-- A significand at a place. -/
def ofParts (sign : Sign) (m : Nat) (e : Int) : UnpackedFloat :=
  if h : m = 0 then .zero sign else .finite sign m e (Nat.pos_of_ne_zero h)

theorem ofParts_of_pos (h : 0 < m) : ofParts sign m e = .finite sign m e h :=
  dif_neg h.ne'

theorem shiftToTargetExponent_eq (m : Nat) (e : Int) :
    shiftToTargetExponent .binary64 m e .exact =
      (cut m (place m e - e).toNat, e + (place m e - e).toNat) := by
  unfold shiftToTargetExponent
  rw [targetExponent_eq]
  rfl

theorem place_le (hm : m < 2 ^ 53) (he : -1074 ≤ e) : place m e ≤ e := by
  have hlog : m.log2 ≤ 52 := by
    by_cases h : m = 0
    · simp [h]
    · exact Nat.le_of_lt_succ ((Nat.log2_lt h).2 hm)
  unfold place
  omega

/-- What is left of a significand at its place has at most 53 bits. -/
theorem div_place_lt (hm : 0 < m) (hk : e + k = place m e) : m / 2 ^ k < 2 ^ 53 := by
  have hle : (m.log2 : Int) + e - 52 ≤ place m e := le_max_left _ _
  rw [Nat.div_lt_iff_lt_mul (Nat.two_pow_pos k), ← Nat.pow_add]
  exact (Nat.log2_lt hm.ne').1 (by omega)

/-- It has fewer only at the last place. -/
theorem le_div_place (hm : 0 < m) (hk : e + k = place m e) (hne : place m e ≠ -1074) :
    2 ^ 52 ≤ m / 2 ^ k := by
  have hplace : place m e = m.log2 + e - 52 := by
    unfold place at hne ⊢
    omega
  rw [Nat.le_div_iff_mul_le (Nat.two_pow_pos k), ← Nat.pow_add]
  exact (Nat.le_log2 hm.ne').1 (by omega)

/-- Rounding a significand at its place adds no more than half of the place. -/
theorem roundedMantissa_mul_le (hk : e + k = place m e) :
    ((cut m k).roundedMantissa : ℚ) * 2 ^ place m e ≤ m * 2 ^ e + 2 ^ (place m e - 1) := by
  have hcast : (2 : ℚ) * 2 ^ k * (cut m k).roundedMantissa ≤ 2 * m + 2 ^ k := by
    exact_mod_cast (roundedMantissa_cut m k).2.2
  have hpow : (2 : ℚ) ^ place m e = 2 ^ e * 2 ^ k := by
    rw [← hk, zpow_add₀ two_ne_zero, zpow_natCast]
  have hhalf : (2 : ℚ) ^ (place m e - 1) = 2 ^ e * 2 ^ k / 2 := by
    rw [zpow_sub_one₀ two_ne_zero, hpow, div_eq_mul_inv]
  have hpos : (0 : ℚ) < 2 ^ e := by positivity
  rw [hpow, hhalf]
  nlinarith

/-- A value is rounded at its place, and what comes of that is cut at a place of its own. -/
theorem roundWithAccuracy_eq (sign : Sign) (hk : e + k = place m e) {r : Nat}
    (hr : (cut m k).roundedMantissa = r) :
    roundWithAccuracy .binary64 sign m e .exact =
      ofParts sign (cut r (place r (place m e) - place m e).toNat).mantissa
        (place m e + (place r (place m e) - place m e).toNat) := by
  have hshift : (place m e - e).toNat = k := by omega
  unfold roundWithAccuracy
  rw [shiftToTargetExponent_eq, hshift, hk]
  dsimp only
  rw [hr, shiftToTargetExponent_eq]
  rfl

/-- The value `u` can stand in a double, has no bits beyond the last place of `m · 2 ^ e`, and is
    greater than that by no more than half of the place. -/
def IsRounding (m : Nat) (e : Int) (u : UnpackedFloat) : Prop :=
  ∃ sign r t, Placed r t ∧ u = ofParts sign r t ∧ place m e ≤ t ∧
    (r : ℚ) * 2 ^ t ≤ m * 2 ^ e + 2 ^ (place m e - 1)

/-- **A value is rounded,** its significand having all the bits that a double can have of it. -/
theorem isRounding_roundWithAccuracy (sign : Sign) (hm : 0 < m) (he : e ≤ place m e) :
    IsRounding m e (roundWithAccuracy .binary64 sign m e .exact) := by
  obtain ⟨k, hk⟩ := Int.le.dest he
  obtain ⟨hlow, hhigh, _⟩ := roundedMantissa_cut m k
  have hvalue := roundedMantissa_mul_le hk
  obtain ⟨r, hr⟩ : ∃ r, (cut m k).roundedMantissa = r := ⟨_, rfl⟩
  have hround := roundWithAccuracy_eq sign hk hr
  rw [hr] at hlow hhigh hvalue
  have hlt := div_place_lt hm hk
  have hleast : -1074 ≤ place m e := le_max_right _ _
  -- If rounding has brought one more bit, the last one is 0 and goes.
  rcases (show r ≤ 2 ^ 53 by omega).lt_or_eq with hfits | hcarry
  · have hnone : (place r (place m e) - place m e).toNat = 0 := by
      have := place_le hfits hleast
      omega
    have hleading : 2 ^ 52 ≤ r ∨ place m e = -1074 :=
      or_iff_not_imp_right.2 fun hne => (le_div_place hm hk hne).trans hlow
    refine ⟨sign, r, place m e, ⟨hfits, hleast, hleading⟩, ?_, le_rfl, hvalue⟩
    rw [hround, hnone, mantissa_cut]
    simp
  · have hone : (place r (place m e) - place m e).toNat = 1 := by
      unfold place at hleast ⊢
      rw [hcarry, Nat.log2_two_pow]
      omega
    refine ⟨sign, 2 ^ 52, place m e + 1, ⟨by decide, by omega, Or.inl le_rfl⟩, ?_, by omega,
      ?_⟩
    · rw [hround, hone, mantissa_cut, hcarry]
      rfl
    · refine le_trans (le_of_eq ?_) hvalue
      rw [hcarry, zpow_add_one₀ two_ne_zero]
      push_cast
      ring

theorem place_mul_two_pow (hm : 0 < m) (k : Nat) : place (m * 2 ^ k) (e - k) = place m e := by
  have hlog : (m * 2 ^ k).log2 = m.log2 + k := by
    rw [Nat.log2_eq_iff (Nat.mul_pos hm (Nat.two_pow_pos k)).ne', Nat.add_right_comm, Nat.pow_add,
      Nat.pow_add 2 (m.log2 + 1)]
    exact ⟨Nat.mul_le_mul_right _ (Nat.log2_self_le hm.ne'),
      Nat.mul_lt_mul_of_pos_right ((Nat.log2_lt hm.ne').1 (Nat.lt_succ_self _))
        (Nat.two_pow_pos k)⟩
  unfold place
  rw [hlog]
  omega

theorem mul_two_pow_sub (m : Nat) (e : Int) (k : Nat) :
    ((m * 2 ^ k : Nat) : ℚ) * 2 ^ (e - k) = m * 2 ^ e := by
  rw [Nat.cast_mul, Nat.cast_pow, Nat.cast_ofNat, ← zpow_natCast, mul_assoc,
    ← zpow_add₀ two_ne_zero]
  congr 2
  omega

/-- **A value is rounded,** whatever bits its significand has. -/
theorem isRounding_round (sign : Sign) (hm : 0 < m) (e : Int) :
    IsRounding m e (round .binary64 sign m e) := by
  -- A significand that is too short is first brought to the place of the last bit.
  obtain ⟨k, hk⟩ : ∃ k, (e - place m e).toNat = k := ⟨_, rfl⟩
  have hround : round .binary64 sign m e =
      roundWithAccuracy .binary64 sign (m * 2 ^ k) (e - k) .exact := by
    unfold UnpackedFloat.round
    rw [targetExponent_eq]
    unfold decreaseExponent
    dsimp only
    rw [hk, Nat.shiftLeft_eq]
  have hplace := place_mul_two_pow (e := e) hm k
  have h := isRounding_roundWithAccuracy sign (e := e - k) (Nat.mul_pos hm (Nat.two_pow_pos k))
    (by omega)
  unfold IsRounding at h ⊢
  rwa [← hround, hplace, mul_two_pow_sub] at h

/-! ### Bounds -/

/-- A finite value that can stand in a double, and its last place is at most `top`. -/
inductive Within (top : Int) : UnpackedFloat → Prop
  | zero {sign : Sign} : Within top (.zero sign)
  | finite {sign : Sign} {m : Nat} {e : Int} {h : 0 < m} (hplaced : Placed m e) (hle : e ≤ top) :
      Within top (.finite sign m e h)

/-- The magnitude of a finite value. -/
def magnitude : UnpackedFloat → ℚ
  | .finite _ m e _ => m * 2 ^ e
  | _ => 0

theorem magnitude_ofParts (sign : Sign) (m : Nat) (e : Int) :
    magnitude (ofParts sign m e) = m * 2 ^ e := by
  unfold ofParts
  split_ifs with h
  · rw [h]
    simp [magnitude]
  · rfl

theorem two_pow_log2_le (hm : 0 < m) (e : Int) : (2 : ℚ) ^ (m.log2 + e) ≤ m * 2 ^ e := by
  rw [zpow_add₀ two_ne_zero, zpow_natCast]
  exact mul_le_mul_of_nonneg_right (by exact_mod_cast Nat.log2_self_le hm.ne') (by positivity)

theorem lt_two_pow_log2 (hm : 0 < m) (e : Int) : (m : ℚ) * 2 ^ e < 2 ^ (m.log2 + 1 + e) := by
  have hlt : m < 2 ^ (m.log2 + 1) := (Nat.log2_lt hm.ne').1 (Nat.lt_succ_self _)
  have hexp : (m.log2 : Int) + 1 + e = ((m.log2 + 1 : Nat) : Int) + e := by push_cast; ring
  rw [hexp, zpow_add₀ two_ne_zero, zpow_natCast]
  exact mul_lt_mul_of_pos_right (by exact_mod_cast hlt) (by positivity)

/-- **No overflow:** a value that is less than a power of two by more than half of a last place is
    rounded to one below that power. -/
theorem IsRounding.within {u : UnpackedFloat} (h : IsRounding m e u) (hm : 0 < m)
    (htop : -1074 ≤ top) (hlt : (m : ℚ) * 2 ^ e < (2 ^ 54 - 1) * 2 ^ (top - 1)) :
    Within top u := by
  obtain ⟨sign, r, t, hplaced, rfl, _, hle⟩ := h
  have hbound : ((2 : ℚ) ^ 54 - 1) * 2 ^ (top - 1) = 2 ^ (top + 53) - 2 ^ (top - 1) := by
    rw [sub_mul, one_mul, ← zpow_natCast, ← zpow_add₀ two_ne_zero]
    congr 2
    push_cast
    ring
  rw [hbound] at hlt
  have hplace : place m e ≤ top := by
    have hpow : (2 : ℚ) ^ (m.log2 + e) < 2 ^ (top + 53) :=
      ((two_pow_log2_le hm e).trans_lt hlt).trans (sub_lt_self _ (by positivity))
    have := (zpow_lt_zpow_iff_right₀ one_lt_two).1 hpow
    unfold place
    omega
  have hhalf : (2 : ℚ) ^ (place m e - 1) ≤ 2 ^ (top - 1) :=
    zpow_le_zpow_right₀ one_le_two (by omega)
  have hvalue : (r : ℚ) * 2 ^ t < 2 ^ (top + 53) := by linarith
  unfold ofParts
  split_ifs with hr
  · exact .zero
  · refine .finite hplaced ?_
    rcases hplaced.leading with hleading | rfl
    · have hpow : (2 : ℚ) ^ (52 + t) < 2 ^ (top + 53) := by
        rw [zpow_add₀ two_ne_zero]
        refine lt_of_le_of_lt (mul_le_mul_of_nonneg_right ?_ (by positivity)) hvalue
        exact_mod_cast hleading
      have := (zpow_lt_zpow_iff_right₀ one_lt_two).1 hpow
      omega
    · exact htop

/-- **The relative error** of a rounding up is small, unless the value is below the normal ones. -/
theorem IsRounding.magnitude_le {u : UnpackedFloat} (h : IsRounding m e u) (hm : 0 < m)
    (hnormal : (2 : ℚ) ^ (-1022 : Int) ≤ m * 2 ^ e) :
    magnitude u ≤ m * 2 ^ e * (1 + 2 ^ (-53 : Int)) := by
  obtain ⟨sign, r, t, hplaced, rfl, _, hle⟩ := h
  have hplace : place m e = m.log2 + e - 52 := by
    have := (zpow_lt_zpow_iff_right₀ one_lt_two).1 (hnormal.trans_lt (lt_two_pow_log2 hm e))
    unfold place
    omega
  have hhalf : (2 : ℚ) ^ (place m e - 1) = 2 ^ (m.log2 + e) * 2 ^ (-53 : Int) := by
    rw [hplace, ← zpow_add₀ two_ne_zero]
    congr 1
    omega
  have herror : (2 : ℚ) ^ (place m e - 1) ≤ m * 2 ^ e * 2 ^ (-53 : Int) := by
    rw [hhalf]
    exact mul_le_mul_of_nonneg_right (two_pow_log2_le hm e) (by positivity)
  rw [magnitude_ofParts, mul_add, mul_one]
  exact hle.trans (add_le_add_right herror _)

/-- A normal value is rounded to one of 53 bits. -/
theorem IsRounding.exists_long {u : UnpackedFloat} (h : IsRounding m e u) (hm : 0 < m)
    (hnormal : (2 : ℚ) ^ (-1021 : Int) ≤ m * 2 ^ e) :
    ∃ sign r t hr, u = .finite sign r t hr ∧ 2 ^ 52 ≤ r := by
  obtain ⟨sign, r, t, hplaced, rfl, hplace, _⟩ := h
  have hlong : 2 ^ 52 ≤ r := by
    have := (zpow_lt_zpow_iff_right₀ one_lt_two).1 (hnormal.trans_lt (lt_two_pow_log2 hm e))
    unfold place at hplace
    exact hplaced.leading.resolve_right (by omega)
  have hr : 0 < r := (Nat.two_pow_pos 52).trans_le hlong
  exact ⟨sign, r, t, hr, ofParts_of_pos hr, hlong⟩

/-! ### Packing -/

theorem toNat_leadingBit {n : Nat} (fraction : BitVec n) :
    (1#1 ++ fraction).toNat = 2 ^ n + fraction.toNat := by
  rw [BitVec.toNat_append, ← Nat.shiftLeft_add_eq_or_of_lt fraction.isLt]
  simp [Nat.shiftLeft_eq]

theorem unpack_packComponents (sign : Sign) (exponent : BitVec 11) (fraction : BitVec 52) :
    unpack .binary64 (packComponents .binary64 sign exponent fraction) =
      if exponent = -1#11 then if fraction = 0#52 then .infinity sign else .notANumber
      else if exponent = 0#11 then ofParts sign fraction.toNat (-1074)
      else ofParts sign (2 ^ 52 + fraction.toNat) (exponent.toNat - 1075) := by
  have hbias : (Format.binary64.exponentBias : Int) = 1023 := by decide
  unfold unpack
  simp only [unpackMantissa_packComponents, unpackExponent_packComponents,
    unpackSign_packComponents, Sign.ofBitVec_toBitVec, hbias]
  split_ifs with hones hzero hempty hfraction
  · rfl
  · rfl
  · rw [hfraction]
    rfl
  · unfold ofParts
    rw [dif_neg (by simpa [← BitVec.toNat_inj] using hfraction), hempty]
    rfl
  · unfold ofParts
    rw [dif_neg (by omega)]
    simp only [toNat_leadingBit]
    congr 1

theorem unpack_pack_finite {h : 0 < m} (hplaced : Placed m e) (hle : e ≤ 971) :
    (Float.Model.pack (.finite sign m e h)).unpack = .finite sign m e h := by
  obtain ⟨hlt, hleast, hleading⟩ := hplaced
  obtain ⟨b, hb⟩ : ∃ b : Nat, (e + 1023 + 52).toNat = b := ⟨_, rfl⟩
  show unpack .binary64 (pack .binary64 (.finite sign m e h)) = _
  have hpack : pack .binary64 (.finite sign m e h) =
      if 2048 ≤ b + 1 then packedInfinity .binary64 sign
      else if m.log2 + 1 = 53 then packComponents .binary64 sign (.ofNat 11 b) (.ofNat 52 m)
      else packComponents .binary64 sign 0#11 (.ofNat 52 m) := by
    rw [← hb]
    rfl
  rw [hpack, if_neg (by omega), ← ofParts_of_pos h]
  by_cases hlong : 2 ^ 52 ≤ m
  · have hlog : m.log2 = 52 := (Nat.log2_eq_iff h.ne').2 ⟨hlong, hlt⟩
    have hones : BitVec.ofNat 11 b ≠ -1#11 := by
      rw [BitVec.toNat_ne, BitVec.toNat_ofNat, Nat.mod_eq_of_lt (by omega)]
      show b ≠ 2047
      omega
    have hempty : BitVec.ofNat 11 b ≠ 0#11 := by
      rw [BitVec.toNat_ne, BitVec.toNat_ofNat, Nat.mod_eq_of_lt (by omega)]
      show b ≠ 0
      omega
    rw [if_pos (by omega), unpack_packComponents, if_neg hones, if_neg hempty, BitVec.toNat_ofNat,
      BitVec.toNat_ofNat, Nat.mod_eq_of_lt (show b < 2 ^ 11 by omega)]
    congr 1
    · omega
    · omega
  · obtain rfl := hleading.resolve_left hlong
    have hlog : m.log2 < 52 := (Nat.log2_lt h.ne').2 (not_le.1 hlong)
    rw [if_neg (by omega), unpack_packComponents, if_neg (by decide), if_pos rfl,
      BitVec.toNat_ofNat, Nat.mod_eq_of_lt (not_le.1 hlong)]

/-- **A value that can stand in a double** is packed without loss. -/
theorem Within.unpack_pack {u : UnpackedFloat} (h : Within 971 u) :
    (Float.Model.pack u).unpack = u := by
  cases h with
  | @zero sign => cases sign <;> rfl
  | finite hplaced hle => exact unpack_pack_finite hplaced hle

end SparseGraph.Decimal
