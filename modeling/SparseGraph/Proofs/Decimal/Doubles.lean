import SparseGraph.Proofs.Decimal.Rounding

namespace SparseGraph.Decimal

open Float.Model (Format UnpackedFloat totalExponent)
open Float.Model.UnpackedFloat

/-!
# Sums and products of doubles

A sum or a product is infinite, or no number, if one of its parts is, and finite if the exact one is
not too great. Singles are so much smaller than doubles that no sum of them overflows: once it is
great enough, a single is less than half of its last place.

* `Within.add`, `Within.mul` — sums and products that stay within bounds;
* `within_toFloat`, `within_widen` — whole numbers and singles as doubles;
* `isFinite_addSingles_iff` — the sum of any number of singles is finite if they all are;
* `isFinite_ofDouble_iff`, `isFinite_ofSingle_iff` — finite values as the words that denote them.
-/

variable {m n k : Nat} {e top : Int} {sign : Sign} {u v : UnpackedFloat} {x y : Float}
  {r : Float32}

/-! ### Finite values -/

theorem Within.isFinite (h : Within top u) : u.isFinite = true := by
  cases h <;> rfl

theorem Within.isInf_eq_false (h : Within top u) : u.isInf = false := by
  cases h <;> rfl

theorem Within.mono {top' : Int} (h : Within top u) (hle : top ≤ top') : Within top' u := by
  cases h with
  | zero => exact .zero
  | finite hplaced he => exact .finite hplaced (he.trans hle)

/-- What is not finite is packed without loss. -/
theorem unpack_pack_of_not_isFinite (h : u.isFinite = false) :
    (Float.Model.pack u).unpack = u := by
  cases u with
  | notANumber => rfl
  | infinity sign => cases sign <;> rfl
  | zero => cases h
  | finite => cases h

/-! ### Sums -/

theorem not_isFinite_add (h : u.isFinite = false ∨ v.isFinite = false) :
    (UnpackedFloat.add .binary64 u v).isFinite = false := by
  cases u <;> cases v <;> simp_all [UnpackedFloat.isFinite, UnpackedFloat.add]
  split_ifs <;> rfl

/-- **A sum is finite** only if its parts are. -/
theorem isFinite_of_add (h : (x + y).isFinite = true) :
    x.isFinite = true ∧ y.isFinite = true := by
  by_contra hnot
  have hparts : x.toModel.unpack.isFinite = false ∨ y.toModel.unpack.isFinite = false := by
    rw [← Bool.not_eq_true, ← Bool.not_eq_true]
    exact not_and_or.1 hnot
  have hsum := not_isFinite_add hparts
  have heq : (x + y).isFinite = (Float.Model.pack
      (UnpackedFloat.add .binary64 x.toModel.unpack y.toModel.unpack)).unpack.isFinite := rfl
  rw [heq, unpack_pack_of_not_isFinite hsum, hsum] at h
  cases h

theorem within_normalize {m : Int} (htop : -1074 ≤ top) (zeroSign : Sign)
    (h : (m.natAbs : ℚ) * 2 ^ e < (2 ^ 54 - 1) * 2 ^ (top - 1)) :
    Within top (UnpackedFloat.normalize .binary64 m e zeroSign) := by
  unfold UnpackedFloat.normalize
  split
  next hlt =>
    have hpos : 0 < (-m).toNat := by
      have := Int.compare_eq_lt.1 hlt
      omega
    have habs : m.natAbs = (-m).toNat := by omega
    exact (isRounding_round .negative hpos e).within hpos htop (habs ▸ h)
  next => exact .zero
  next hgt =>
    have hpos : 0 < m.toNat := by
      have := Int.compare_eq_gt.1 hgt
      omega
    have habs : m.natAbs = m.toNat := by omega
    exact (isRounding_round .positive hpos e).within hpos htop (habs ▸ h)

theorem natAbs_apply (sign : Sign) (n : Nat) : (sign.apply n).natAbs = n := by
  cases sign
  · exact Int.natAbs_neg n
  · rfl

/-- A value that can stand in a double is less than the power of two above its last place. -/
theorem Placed.le (h : Placed m e) (hle : e ≤ top) : (m : ℚ) * 2 ^ e ≤ (2 ^ 53 - 1) * 2 ^ top := by
  have hm : (m : ℚ) ≤ 2 ^ 53 - 1 := by
    have hlt : ((m + 1 : Nat) : ℚ) ≤ (2 ^ 53 : Nat) := Nat.cast_le.2 h.lt
    push_cast at hlt
    linarith
  exact mul_le_mul hm (zpow_le_zpow_right₀ one_le_two hle) (by positivity) (by norm_num)

/-- **A great sum does not grow** by what is less than half of its last place. -/
theorem Within.add (hu : Within 131 u) (hv : Within 75 v) :
    Within 131 (UnpackedFloat.add .binary64 u v) := by
  cases hu with
  | zero =>
    cases hv with
    | zero =>
      unfold UnpackedFloat.add
      dsimp only
      split_ifs <;> exact .zero
    | finite hplaced hle => exact .finite hplaced (hle.trans (by decide))
  | @finite sign m e _ hplaced hle =>
    cases hv with
    | zero => exact .finite hplaced hle
    | @finite sign' m' e' _ hplaced' hle' =>
      obtain ⟨k, hk⟩ : ∃ k, (e - min e e').toNat = k := ⟨_, rfl⟩
      obtain ⟨k', hk'⟩ : ∃ k', (e' - min e e').toNat = k' := ⟨_, rfl⟩
      unfold UnpackedFloat.add decreaseExponent
      dsimp only
      rw [hk, hk', Nat.shiftLeft_eq, Nat.shiftLeft_eq]
      refine within_normalize (by decide) .positive ?_
      have htriangle : ((sign.apply ((m * 2 ^ k : Nat) : Int) +
          sign'.apply ((m' * 2 ^ k' : Nat) : Int)).natAbs : ℚ) ≤
          (m * 2 ^ k : Nat) + (m' * 2 ^ k' : Nat) := by
        have := Int.natAbs_add_le (sign.apply ((m * 2 ^ k : Nat) : Int))
          (sign'.apply ((m' * 2 ^ k' : Nat) : Int))
        rw [natAbs_apply, natAbs_apply] at this
        exact_mod_cast this
      have hfirst := mul_two_pow_sub m e k
      have hsecond := mul_two_pow_sub m' e' k'
      rw [show e - (k : Int) = min e e' by omega] at hfirst
      rw [show e' - (k' : Int) = min e e' by omega] at hsecond
      calc _ ≤ (((m * 2 ^ k : Nat) : ℚ) + (m' * 2 ^ k' : Nat)) * 2 ^ min e e' :=
            mul_le_mul_of_nonneg_right htriangle (by positivity)
        _ = m * 2 ^ e + m' * 2 ^ e' := by rw [add_mul, hfirst, hsecond]
        _ ≤ (2 ^ 53 - 1) * 2 ^ (131 : Int) + (2 ^ 53 - 1) * 2 ^ (75 : Int) :=
            add_le_add (hplaced.le hle) (hplaced'.le hle')
        _ < (2 ^ 54 - 1) * 2 ^ ((131 : Int) - 1) := by norm_num

/-! ### Products -/

/-- **A product** does not overflow if the exact one is not too great. -/
theorem Within.mul (hu : Within 971 u) (sign : Sign) (h : 0 < m) (hm : 2 ^ 52 ≤ m)
    (hlt : magnitude u * (m * 2 ^ e) < (2 ^ 54 - 1) * 2 ^ (970 : Int)) :
    Within 971 (UnpackedFloat.mul .binary64 u (.finite sign m e h)) := by
  cases hu with
  | zero => exact .zero
  | @finite sign' m' e' hpos hplaced hle =>
    have hprod : 0 < m' * m := Nat.mul_pos hpos h
    have hlog : 52 ≤ (m' * m).log2 :=
      (Nat.le_log2 hprod.ne').2 (hm.trans (Nat.le_mul_of_pos_left m hpos))
    have hplace : e' + e ≤ place (m' * m) (e' + e) := by
      unfold place
      omega
    refine (isRounding_roundWithAccuracy _ hprod hplace).within hprod (by decide) ?_
    have heq : ((m' * m : Nat) : ℚ) * 2 ^ (e' + e) = m' * 2 ^ e' * (m * 2 ^ e) := by
      rw [zpow_add₀ two_ne_zero]
      push_cast
      ring
    rw [heq]
    exact hlt

/-- A whole number of 64 bits as a double. -/
theorem within_toFloat (hn : n < 2 ^ 64) :
    Within 971 (UInt64.ofNat n).toFloat.toModel.unpack ∧
      magnitude (UInt64.ofNat n).toFloat.toModel.unpack ≤ n * (1 + 2 ^ (-53 : Int)) := by
  have hfloat : (UInt64.ofNat n).toFloat.toModel.unpack =
      (Float.Model.pack (UnpackedFloat.normalize .binary64 n 0 .positive)).unpack := by
    show (Float.Model.pack
      (UnpackedFloat.normalize .binary64 ((UInt64.ofNat n).toNat : Int) 0 .positive)).unpack = _
    rw [UInt64.toNat_ofNat_of_lt' hn]
  rw [hfloat]
  rcases Nat.eq_zero_or_pos n with rfl | hpos
  · refine ⟨.zero, ?_⟩
    show (0 : ℚ) ≤ (0 : Nat) * _
    rw [Nat.cast_zero, zero_mul]
  · have hround : UnpackedFloat.normalize .binary64 n 0 .positive = round .binary64 .positive n 0 := by
      unfold UnpackedFloat.normalize
      rw [Int.compare_eq_gt.2 (Int.natCast_pos.2 hpos)]
      rfl
    have hr := isRounding_round .positive hpos 0
    have hcast : (n : ℚ) < 2 ^ 64 := by exact_mod_cast hn
    have hone : (1 : ℚ) ≤ n := by exact_mod_cast hpos
    have hvalue : (n : ℚ) * 2 ^ (0 : Int) = n := by rw [zpow_zero, mul_one]
    have hw : Within 12 (round .binary64 .positive n 0) := by
      refine hr.within hpos (by decide) ?_
      rw [hvalue]
      exact hcast.trans (by norm_num)
    have hnormal : (2 : ℚ) ^ (-1022 : Int) ≤ n * 2 ^ (0 : Int) := by
      rw [hvalue]
      exact (zpow_le_one_of_nonpos₀ one_le_two (by decide)).trans hone
    have hle := hr.magnitude_le hpos hnormal
    rw [hvalue] at hle
    rw [hround, (hw.mono (by decide)).unpack_pack]
    exact ⟨hw.mono (by decide), hle⟩

/-! ### Singles -/

theorem bounds_of_unpack_single {h : 0 < m} (heq : r.toModel.unpack = .finite sign m e h) :
    m < 2 ^ 24 ∧ e ≤ 104 := by
  obtain ⟨b, hb⟩ : ∃ b, b = r.toModel.toBits.toBitVec := ⟨_, rfl⟩
  have hunpack : unpack .binary32 b = .finite sign m e h := hb ▸ heq
  have hbias : (Format.binary32.exponentBias : Int) = 127 := by decide
  unfold unpack at hunpack
  rw [hbias] at hunpack
  dsimp only at hunpack
  have hfraction : (@unpackMantissa .binary32 b).toNat < 2 ^ 23 := BitVec.isLt _
  have hexponent : (@unpackExponent .binary32 b).toNat < 2 ^ 8 := BitVec.isLt _
  split_ifs at hunpack with hones hzero hempty hfinite
  · cases hunpack
    rw [hempty]
    exact ⟨hfraction.trans (by decide), by decide⟩
  · cases hunpack
    have hne : (@unpackExponent .binary32 b).toNat ≠ 255 := BitVec.toNat_ne.1 hones
    have hm : (1#1 ++ @unpackMantissa .binary32 b).toNat =
        2 ^ 23 + (@unpackMantissa .binary32 b).toNat := toNat_leadingBit _
    constructor
    · omega
    · omega

/-- **A single as a double** is finite if the single is. -/
theorem within_widen (h : r.isFinite = true) : Within 75 (widen r).toModel.unpack := by
  have hfinite : r.toModel.unpack.isFinite = true := h
  unfold widen
  show Within 75 (Float.Model.pack _).unpack
  cases hr : r.toModel.unpack with
  | notANumber => rw [hr] at hfinite; cases hfinite
  | infinity sign => rw [hr] at hfinite; cases hfinite
  | zero sign =>
    dsimp only
    rw [Within.unpack_pack .zero]
    exact .zero
  | finite sign m e hm =>
    obtain ⟨hlt, hle⟩ := bounds_of_unpack_single hr
    have hvalue : (m : ℚ) * 2 ^ e < (2 ^ 54 - 1) * 2 ^ ((75 : Int) - 1) := by
      have hcast : ((m + 1 : Nat) : ℚ) ≤ (2 ^ 24 : Nat) := Nat.cast_le.2 hlt
      push_cast at hcast
      calc (m : ℚ) * 2 ^ e ≤ (2 ^ 24 - 1) * 2 ^ (104 : Int) :=
            mul_le_mul (by linarith) (zpow_le_zpow_right₀ one_le_two hle) (by positivity)
              (by norm_num)
        _ < (2 ^ 54 - 1) * 2 ^ ((75 : Int) - 1) := by norm_num
    have hround := (isRounding_round sign hm e).within hm (by decide) hvalue
    dsimp only
    rwa [(hround.mono (by decide)).unpack_pack]

theorem isFinite_of_widen (h : (widen r).isFinite = true) : r.isFinite = true := by
  by_contra hnot
  have hr : r.toModel.unpack.isFinite = false := Bool.eq_false_of_not_eq_true hnot
  have heq : (widen r).toModel.unpack = r.toModel.unpack := by
    unfold widen
    show (Float.Model.pack _).unpack = _
    cases hcase : r.toModel.unpack with
    | notANumber => rfl
    | infinity sign => cases sign <;> rfl
    | zero => rw [hcase] at hr; cases hr
    | finite => rw [hcase] at hr; cases hr
  have hwide : (widen r).toModel.unpack.isFinite = true := h
  rw [heq, hr] at hwide
  cases hwide

/-- Adding singles, from the left. -/
def addSingles (s : Float) (singles : List Float32) : Float :=
  singles.foldl (fun sum r => sum + widen r) s

theorem within_addSingles {s : Float} {singles : List Float32}
    (hs : Within 131 s.toModel.unpack) (h : ∀ r ∈ singles, r.isFinite = true) :
    Within 131 (addSingles s singles).toModel.unpack := by
  induction singles generalizing s with
  | nil => exact hs
  | cons r singles ih =>
    obtain ⟨hr, hrest⟩ := List.forall_mem_cons.1 h
    refine ih ?_ hrest
    have hadd := hs.add (within_widen hr)
    show Within 131 (Float.Model.pack
      (UnpackedFloat.add .binary64 s.toModel.unpack (widen r).toModel.unpack)).unpack
    rwa [(hadd.mono (by decide)).unpack_pack]

theorem isFinite_of_addSingles {s : Float} {singles : List Float32}
    (h : (addSingles s singles).isFinite = true) :
    s.isFinite = true ∧ ∀ r ∈ singles, r.isFinite = true := by
  induction singles generalizing s with
  | nil => exact ⟨h, List.forall_mem_nil _⟩
  | cons r singles ih =>
    obtain ⟨hsum, hrest⟩ := ih h
    obtain ⟨hs, hr⟩ := isFinite_of_add hsum
    exact ⟨hs, List.forall_mem_cons.2 ⟨isFinite_of_widen hr, hrest⟩⟩

/-- **A sum of singles is finite if and only if they all are,** however many there are. -/
theorem isFinite_addSingles_iff {s : Float} (hs : Within 131 s.toModel.unpack)
    (singles : List Float32) :
    (addSingles s singles).isFinite = true ↔ ∀ r ∈ singles, r.isFinite = true :=
  ⟨fun h => (isFinite_of_addSingles h).2, fun h => (within_addSingles hs h).isFinite⟩

/-! ### Words -/

theorem isFinite_unpack {spec : Format} (b : BitVec spec.numBits) :
    (unpack spec b).isFinite = true ↔ @unpackExponent spec b ≠ -1#_ := by
  unfold unpack
  dsimp only
  split_ifs with hones hzero hempty hfraction
  · simp [UnpackedFloat.isFinite, hones]
  · simp [UnpackedFloat.isFinite, hones]
  · simp [UnpackedFloat.isFinite, hones]
  · simp [UnpackedFloat.isFinite, hones]
  · simp [UnpackedFloat.isFinite, hones]

theorem toNat_unpackExponent {spec : Format} (b : BitVec spec.numBits) :
    (@unpackExponent spec b).toNat =
      (b.toNat >>> spec.mantissaBitsWithoutImplicit) % (1 <<< spec.exponentBits) := by
  rw [unpackExponent_def, BitVec.extractLsb'_toNat, Nat.one_shiftLeft]

/-- Whether a word is decoded into a finite value. -/
def Binary.IsFinite : Binary → Prop
  | .finite .. => True
  | _ => False

theorem isFinite_ofBits_iff {spec : Format} (b : BitVec spec.numBits) :
    (Binary.ofBits spec.exponentBits spec.mantissaBitsWithoutImplicit b.toNat).IsFinite ↔
      (unpack spec b).isFinite = true := by
  rw [isFinite_unpack, BitVec.toNat_ne, toNat_unpackExponent]
  have hones : (-BitVec.ofNat spec.exponentBits 1).toNat + 1 = 1 <<< spec.exponentBits := by
    rw [BitVec.neg_one_eq_allOnes, BitVec.toNat_allOnes, Nat.one_shiftLeft]
    have := Nat.two_pow_pos spec.exponentBits
    omega
  generalize (-BitVec.ofNat spec.exponentBits 1).toNat = ones at hones ⊢
  unfold Binary.ofBits
  dsimp only
  generalize b.toNat >>> spec.mantissaBitsWithoutImplicit % (1 <<< spec.exponentBits) = field
  have hiff : field + 1 = 1 <<< spec.exponentBits ↔ field = ones := by omega
  split_ifs with h
  all_goals simp [Binary.IsFinite, ← hiff, h]

theorem isFinite_ofDouble_iff (x : Float) :
    (Binary.ofDouble x).IsFinite ↔ x.isFinite = true :=
  @isFinite_ofBits_iff .binary64 x.toModel.toBits.toBitVec

theorem isFinite_ofSingle_iff (x : Float32) :
    (Binary.ofSingle x).IsFinite ↔ x.isFinite = true :=
  @isFinite_ofBits_iff .binary32 x.toModel.toBits.toBitVec

/-- A word is decoded into a significand and a power of two within the bounds of its format. -/
theorem bounds_of_ofBits {e f word m : Nat} {negative narrow : Bool} {k : Int} (he : 1 < e)
    (h : Binary.ofBits e f word = .finite negative m k narrow) :
    m < 2 ^ (f + 1) ∧ k ≤ (2 ^ (e - 1) : Nat) - 1 - f := by
  obtain ⟨n, rfl⟩ := Nat.exists_eq_add_of_lt he
  have hf : word % 2 ^ f < 2 ^ f := Nat.mod_lt _ (Nat.two_pow_pos f)
  have hb : word >>> f % 2 ^ (1 + n + 1) < 2 ^ (1 + n + 1) := Nat.mod_lt _ (Nat.two_pow_pos _)
  have hpow : 2 ≤ 2 ^ (1 + n) := Nat.le_self_pow (by omega) 2
  unfold Binary.ofBits at h
  simp only [Nat.one_shiftLeft, Nat.add_sub_cancel] at h ⊢
  rw [Nat.pow_succ] at hb h ⊢
  split_ifs at h with hones hzero hempty
  · obtain ⟨-, rfl, rfl, -⟩ := Binary.finite.inj h
    omega
  · obtain ⟨-, rfl, rfl, -⟩ := Binary.finite.inj h
    omega

end SparseGraph.Decimal
