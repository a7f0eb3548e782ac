import SparseGraph.Proofs.Decimal.Shortest
import SparseGraph.Proofs.Json.Numbers
import SparseGraph.Proofs.Json.Scaling

namespace SparseGraph.Json

open Decimal (Binary Digits Layout pointed roundsBack shortest)
open Text (digits maxLong)

/-!
# Texts of floating point values

The text of a finite value denotes the shortest decimal that rounds back to it. This is so near to
the value that it can be read, though perhaps as one next to it. Only the two greatest doubles are
too great for that argument, and their texts are looked at one by one.

* `Proper`, `value` — decimals that can be written, and their values;
* `IsTextOf`, `isTextOf_of_spelled` — what is read of a text has the value of a decimal;
* `isTextOf_plain`, `isTextOf_scientific`, `isTextOf_render` — a decimal is read of its text, without
  an exponent and with one;
* `isSome_renderBinary` — values that are not too great are read;
* `isSome_readBack?_double_iff`, `isSome_readBack?_single_iff` — of all values the finite ones are.
-/

variable {cs : List Char} {c : Nat} {d : Digits} {layout : Layout}

/-! ### Digits -/

theorem digit_bounds {c : Char} (h : c.isDigit = true) (hne : c ≠ '0') :
    1 ≤ c.toNat - '0'.toNat := by
  obtain ⟨hlow, _⟩ := Text.isDigit_iff.1 h
  have hlow' : '0'.toNat ≤ c.toNat := hlow
  have hne' : c.toNat ≠ '0'.toNat := fun heq => hne (Char.toNat_inj.1 heq)
  omega

/-- A number is at least the power of ten of its first digit, unless this is zero. -/
theorem pow_le_ofDigitChars (h : ∀ c ∈ cs, c.isDigit = true) (hne : cs ≠ [])
    (hhead : cs.head? ≠ some '0') : 10 ^ (cs.length - 1) ≤ Nat.ofDigitChars 10 cs 0 := by
  obtain ⟨c, rest, rfl⟩ := List.exists_cons_of_ne_nil hne
  have hfirst : 1 ≤ c.toNat - '0'.toNat :=
    digit_bounds (h c List.mem_cons_self) fun hc => hhead (congrArg some hc)
  rw [Nat.ofDigitChars_cons, Nat.ofDigitChars_eq_ofDigitChars_zero, List.length_cons,
    Nat.add_sub_cancel]
  exact (Nat.le_mul_of_pos_right _ (by omega)).trans (Nat.le_add_right _ _)

theorem ofDigitChars_lt (h : ∀ c ∈ cs, c.isDigit = true) :
    Nat.ofDigitChars 10 cs 0 < 10 ^ cs.length := by
  induction cs with
  | nil => simp
  | cons c cs ih =>
    obtain ⟨hc, hcs⟩ := List.forall_mem_cons.1 h
    have hdigit : c.toNat - '0'.toNat ≤ 9 := by
      have hhigh : c.toNat ≤ '9'.toNat := (Text.isDigit_iff.1 hc).2
      have hnine : '9'.toNat = '0'.toNat + 9 := rfl
      omega
    have hrest := ih hcs
    rw [Nat.ofDigitChars_cons, Nat.ofDigitChars_eq_ofDigitChars_zero, List.length_cons, pow_succ]
    have hmul := Nat.mul_le_mul_left (10 ^ cs.length) hdigit
    simp only [Nat.mul_zero, Nat.zero_add]
    omega

/-! ### Decimals -/

/-- A decimal as it can be written: with digits, of which the first is not zero unless all of it
    is. -/
structure Proper (d : Digits) : Prop where
  isDigit : ∀ c ∈ d.digits, c.isDigit = true
  ne_nil : d.digits ≠ []
  eq_zero : d.digits.head? = some '0' → d = ⟨['0'], 0⟩

/-- The value of a decimal. -/
def value (d : Digits) : ℚ :=
  (Nat.ofDigitChars 10 d.digits 0 : Nat) * 10 ^ (d.exponent + 1 - d.digits.length)

theorem isDigit_of_mem_zeros (k : Nat) : ∀ c ∈ List.replicate k '0', c.isDigit = true := by
  intro c hc
  rw [List.eq_of_mem_replicate hc]
  rfl

theorem proper_zero : Proper ⟨['0'], 0⟩ where
  isDigit := isDigit_of_mem_zeros 1
  ne_nil := List.cons_ne_nil _ _
  eq_zero _ := rfl

/-- Digits without the zeros at their end, and these. -/
theorem exists_trailing_zeros (cs : List Char) :
    ∃ k, cs = (cs.reverse.dropWhile (· == '0')).reverse ++ List.replicate k '0' := by
  have hsplit := List.takeWhile_append_dropWhile (p := (· == '0')) (l := cs.reverse)
  refine ⟨(cs.reverse.takeWhile (· == '0')).length, ?_⟩
  have hzeros : (cs.reverse.takeWhile (· == '0')).reverse =
      List.replicate (cs.reverse.takeWhile (· == '0')).length '0' := by
    rw [List.eq_replicate_iff]
    refine ⟨List.length_reverse, fun c hc => ?_⟩
    exact beq_iff_eq.1 (List.all_eq_true.1 List.all_takeWhile c (List.mem_reverse.1 hc))
  rw [← hzeros, ← List.reverse_append, hsplit, List.reverse_reverse]

/-- **A positive point of the grid** gives a decimal of its value that can be written. -/
theorem proper_ofPoint (hc : 0 < c) (unit : Int) :
    Proper (.ofPoint c unit) ∧ value (.ofPoint c unit) = c * 10 ^ unit := by
  obtain ⟨k, hk⟩ := exists_trailing_zeros (Nat.toDigits 10 c)
  obtain ⟨kept, hkept⟩ : ∃ kept,
      kept = ((Nat.toDigits 10 c).reverse.dropWhile (· == '0')).reverse := ⟨_, rfl⟩
  rw [← hkept] at hk
  have hdigit : ∀ x ∈ Nat.toDigits 10 c, x.isDigit = true := fun x => isDigit_of_mem_digits
  have hhead : (Nat.toDigits 10 c).head? ≠ some '0' := head?_digits_ne_zero hc
  have hne : kept ≠ [] := by
    rintro rfl
    have hnil : Nat.toDigits 10 c ≠ [] := Nat.toDigits_ne_nil
    cases k with
    | zero => exact hnil hk
    | succ k => exact hhead (hk ▸ rfl)
  have hpoint : Digits.ofPoint c unit = ⟨kept, unit + ((Nat.toDigits 10 c).length - 1 : Nat)⟩ := by
    unfold Digits.ofPoint
    dsimp only
    rw [← hkept, if_neg (by simpa using hne)]
  have hlength : (Nat.toDigits 10 c).length = kept.length + k := by
    rw [hk, List.length_append, List.length_replicate]
  have hkeptPos : 0 < kept.length := List.length_pos_of_ne_nil hne
  rw [hpoint]
  refine ⟨⟨fun x hx => hdigit x (hk ▸ List.mem_append_left _ hx), hne, fun h => ?_⟩, ?_⟩
  · refine absurd ?_ hhead
    rw [hk, List.head?_append_of_ne_nil _ hne]
    exact h
  · have hvalue : c = 10 ^ k * Nat.ofDigitChars 10 kept 0 := by
      have hnumber : Nat.ofDigitChars 10 (Nat.toDigits 10 c) 0 = c :=
        Nat.ofDigitChars_ten_toDigits
      rw [hk, Nat.ofDigitChars_append, Nat.ofDigitChars_replicate_zero] at hnumber
      exact hnumber.symm
    have hcast : (c : ℚ) = 10 ^ k * (Nat.ofDigitChars 10 kept 0 : Nat) := by exact_mod_cast hvalue
    have hpow : (10 : ℚ) ^ (unit + ((Nat.toDigits 10 c).length - 1 : Nat) + 1 - kept.length) =
        10 ^ k * 10 ^ unit := by
      rw [← zpow_natCast, ← zpow_add₀ (by norm_num)]
      congr 1
      omega
    unfold value
    dsimp only
    rw [hpow, hcast]
    ring

/-! ### Their texts -/

/-- What is written in front of a number. -/
def signText (negative : Bool) : List Char :=
  if negative then ['-'] else []

/-- A text of a decimal: what is read there has its value, and few digits in front of the point. -/
def IsTextOf (text : List Char) (d : Digits) : Prop :=
  ∀ negative, ∃ t, readNumberText? (signText negative ++ text) = some t ∧ t.value = value d ∧
    natOfDigits t.whole ≤ maxLong ∧ (t.tens = 0 ∨ t.tens = d.exponent)

/-- Digits in front of the point and behind it, and a power of ten, with the value of a decimal, are
    a text of it. -/
theorem isTextOf_of_spelled {whole fraction tail : List Char} {exponent : Option (Bool × List Nat)}
    (tens : Int) (hwhole : Leads whole) (hfraction : ∀ c ∈ fraction, c.isDigit = true)
    (htail : readExponent? tail = some exponent)
    (hend : ∀ c ∈ tail.head?, c.isDigit = false ∧ c ≠ '.')
    (htens : ∀ negative as bs, NumberText.tens ⟨negative, as, bs, exponent⟩ = tens)
    (hexponent : tens = 0 ∨ tens = d.exponent) (hlength : whole.length ≤ 19)
    (hvalue : (Nat.ofDigitChars 10 (whole ++ fraction) 0 : ℚ) * 10 ^ (tens - fraction.length) =
      value d) :
    IsTextOf (whole ++ (pointed fraction ++ tail)) d := by
  intro negative
  refine ⟨_, readNumberText?_spelled negative hwhole hfraction htail hend, ?_, ?_, ?_⟩
  · unfold NumberText.value
    rw [htens, ← List.map_append, natOfDigits_map, List.length_map]
    exact hvalue
  · dsimp only
    rw [natOfDigits_map]
    calc Nat.ofDigitChars 10 whole 0 ≤ 10 ^ whole.length := (ofDigitChars_lt hwhole.isDigit).le
      _ ≤ 10 ^ 19 := Nat.pow_le_pow_right (by decide) hlength
      _ ≤ maxLong := by decide
  · rwa [htens]

/-- Digits with a point between them are a text of a decimal of the same value. -/
theorem isTextOf_of_pointed {whole fraction : List Char} (hwhole : Leads whole)
    (hfraction : ∀ c ∈ fraction, c.isDigit = true) (hne : fraction ≠ []) (hlength : whole.length ≤ 19)
    (hvalue : (Nat.ofDigitChars 10 (whole ++ fraction) 0 : ℚ) * 10 ^ (-(fraction.length : Int)) =
      value d) :
    IsTextOf (whole ++ '.' :: fraction) d := by
  have hpointed : pointed fraction ++ [] = '.' :: fraction := by
    rw [List.append_nil]
    cases fraction with
    | nil => exact absurd rfl hne
    | cons => rfl
  rw [← hpointed]
  refine isTextOf_of_spelled 0 hwhole hfraction rfl (by simp) (fun _ _ _ => rfl) (Or.inl rfl)
    hlength ?_
  rwa [zero_sub]

/-- A decimal below one: zeros follow the point. -/
theorem isTextOf_below_one (hd : Proper d) (hneg : d.exponent < 0) :
    IsTextOf (['0', '.'] ++ List.replicate ((-d.exponent).toNat - 1) '0' ++ d.digits) d := by
  rw [List.append_assoc]
  show IsTextOf (['0'] ++ '.' :: (List.replicate ((-d.exponent).toNat - 1) '0' ++ d.digits)) d
  refine isTextOf_of_pointed ⟨isDigit_of_mem_zeros 1, List.cons_ne_nil _ _, fun _ => rfl⟩ ?_ ?_
    (by decide) ?_
  · exact List.forall_mem_append.2 ⟨isDigit_of_mem_zeros _, hd.isDigit⟩
  · exact List.append_ne_nil_of_right_ne_nil _ hd.ne_nil
  · unfold value
    rw [Nat.ofDigitChars_append, Nat.ofDigitChars_append, Nat.ofDigitChars_replicate_zero]
    congr 2
    rw [List.length_append, List.length_replicate]
    push_cast
    omega

section Whole

variable {n : Nat} (hd : Proper d) (hn : d.exponent + 1 = n)
include hd hn

/-- The only decimal that begins with zero has one digit in front of the point. -/
theorem Proper.eq_of_zero (hzero : d.digits.head? = some '0') : d.digits = ['0'] ∧ n = 1 := by
  rw [hd.eq_zero hzero] at hn ⊢
  exact ⟨rfl, by simpa using hn.symm⟩

/-- A decimal whose point stands between two digits. -/
theorem isTextOf_between (hpos : 0 < n) (hle : n ≤ 19) (hlong : n < d.digits.length) :
    IsTextOf (d.digits.take n ++ '.' :: d.digits.drop n) d := by
  have hlength : (d.digits.take n).length = n := by
    rw [List.length_take]
    omega
  refine isTextOf_of_pointed ⟨?_, ?_, fun hzero => ?_⟩ ?_ ?_ ?_ ?_
  · exact fun x hx => hd.isDigit x (List.mem_of_mem_take hx)
  · exact List.ne_nil_of_length_pos (hlength.symm ▸ hpos)
  · rw [List.head?_take, if_neg (by omega)] at hzero
    obtain ⟨hdigits, hone⟩ := hd.eq_of_zero hn hzero
    rw [hdigits, hone] at hlong
    exact absurd hlong (Nat.lt_irrefl 1)
  · exact fun x hx => hd.isDigit x (List.mem_of_mem_drop hx)
  · rw [ne_eq, List.drop_eq_nil_iff]
    omega
  · rwa [hlength]
  · unfold value
    rw [List.take_append_drop, List.length_drop]
    congr 2
    omega

/-- The digits of a decimal with zeros up to the point. -/
theorem Proper.leads_padded :
    Leads (d.digits ++ List.replicate (n - d.digits.length) '0') where
  isDigit := List.forall_mem_append.2 ⟨hd.isDigit, isDigit_of_mem_zeros _⟩
  ne_nil := List.append_ne_nil_of_left_ne_nil hd.ne_nil _
  eq_zero hzero := by
    rw [List.head?_append_of_ne_nil _ hd.ne_nil] at hzero
    obtain ⟨hdigits, hone⟩ := hd.eq_of_zero hn hzero
    rw [hdigits, hone]
    rfl

/-- A decimal that ends in front of the point: zeros follow up to it, and one behind it. -/
theorem isTextOf_padded (hle : n ≤ 19) (hshort : d.digits.length ≤ n) :
    IsTextOf (d.digits ++ List.replicate (n - d.digits.length) '0' ++ '.' :: ['0']) d := by
  refine isTextOf_of_pointed (hd.leads_padded hn) (isDigit_of_mem_zeros 1) (List.cons_ne_nil _ _)
    ?_ ?_
  · rw [List.length_append, List.length_replicate]
    omega
  · have hpow : (10 : ℚ) ^ (d.exponent + 1 - d.digits.length) = 10 ^ (n - d.digits.length) := by
      rw [← zpow_natCast]
      congr 1
      omega
    have hlast (v : Nat) : Nat.ofDigitChars 10 ['0'] v = 10 * v := rfl
    unfold value
    rw [Nat.ofDigitChars_append, Nat.ofDigitChars_append, Nat.ofDigitChars_replicate_zero, hpow,
      hlast, List.length_singleton, Nat.cast_one, zpow_neg_one]
    push_cast
    ring

end Whole

/-- A decimal from one on without an exponent. -/
theorem isTextOf_plain (hd : Proper d) (hnonneg : 0 ≤ d.exponent) (hle : d.exponent ≤ 18) :
    IsTextOf ((d.digits ++ List.replicate (d.exponent.toNat + 1 - d.digits.length) '0').take
        (d.exponent.toNat + 1) ++
      '.' :: (if (d.digits.drop (d.exponent.toNat + 1)).isEmpty then ['0']
        else d.digits.drop (d.exponent.toNat + 1))) d := by
  obtain ⟨n, hn⟩ : ∃ n, d.exponent.toNat + 1 = n := ⟨_, rfl⟩
  have hexponent : d.exponent + 1 = n := by omega
  rw [hn]
  by_cases hlong : n < d.digits.length
  · have hdrop : (d.digits.drop n).isEmpty = false := by simpa using hlong
    rw [hdrop, if_neg Bool.false_ne_true, List.take_append_of_le_length hlong.le]
    exact isTextOf_between hd hexponent (by omega) (by omega) hlong
  · have hshort : d.digits.length ≤ n := not_lt.1 hlong
    have hlength : (d.digits ++ List.replicate (n - d.digits.length) '0').length = n := by
      rw [List.length_append, List.length_replicate, Nat.add_sub_cancel' hshort]
    rw [List.drop_eq_nil_of_le hshort, List.take_of_length_le hlength.le]
    exact isTextOf_padded hd hexponent (by omega) hshort

/-- What is read of an exponent behind its sign. -/
theorem readExponent?_signed (e : Int) :
    readExponent? ('e' :: (if e < 0 then '-' else '+') :: Nat.toDigits 10 e.natAbs) =
      some (some (decide (e < 0), (digits e.natAbs).map digitOf)) := by
  have hspan : spanDigits (Nat.toDigits 10 e.natAbs) = ((digits e.natAbs).map digitOf, []) := by
    have h := @spanDigits_append (digits e.natAbs) [] (fun _ => isDigit_of_mem_digits) (by simp)
    rwa [List.append_nil] at h
  obtain ⟨x, xs, hx⟩ := List.exists_cons_of_ne_nil (leads_digits e.natAbs).ne_nil
  rw [hx] at hspan ⊢
  by_cases hneg : e < 0
  · rw [if_pos hneg, decide_eq_true hneg]
    unfold readExponent?
    simp [hspan]
  · rw [if_neg hneg, decide_eq_false hneg]
    unfold readExponent?
    simp [hspan]

/-- Such an exponent counts as itself. -/
theorem tens_signed (e : Int) (negative : Bool) (whole fraction : List Nat) :
    NumberText.tens ⟨negative, whole, fraction,
      some (decide (e < 0), (digits e.natAbs).map digitOf)⟩ = e := by
  unfold NumberText.tens
  dsimp only
  rw [natOfDigits_map_digitOf]
  by_cases hneg : e < 0
  · rw [decide_eq_true hneg, if_pos rfl]
    omega
  · rw [decide_eq_false hneg, if_neg Bool.false_ne_true]
    omega

/-- A decimal with an exponent. -/
theorem isTextOf_scientific (hd : Proper d) :
    IsTextOf (d.digits.take 1 ++ pointed (d.digits.drop 1) ++
      ['e', if d.exponent < 0 then '-' else '+'] ++ Nat.toDigits 10 d.exponent.natAbs) d := by
  obtain ⟨c, rest, hdigits⟩ := List.exists_cons_of_ne_nil hd.ne_nil
  have hleads : Leads [c] := by
    refine ⟨fun x hx => hd.isDigit x ?_, List.cons_ne_nil _ _, fun h => ?_⟩
    · rw [List.mem_singleton.1 hx, hdigits]
      exact List.mem_cons_self
    · rw [Option.some.inj h]
  have h : IsTextOf ([c] ++ (pointed rest ++ 'e' :: (if d.exponent < 0 then '-' else '+') ::
      Nat.toDigits 10 d.exponent.natAbs)) d := by
    refine isTextOf_of_spelled d.exponent hleads ?_ (readExponent?_signed d.exponent) (by simp)
      (tens_signed d.exponent) (Or.inr rfl) (by simp) ?_
    · exact fun x hx => hd.isDigit x (hdigits ▸ List.mem_cons_of_mem _ hx)
    · unfold value
      rw [hdigits, List.length_cons]
      congr 2
      push_cast
      ring
  rw [hdigits]
  simpa using h

/-- **A decimal is read** of its text. -/
theorem isTextOf_render (hd : Proper d) (hlargest : layout.largest ≤ 18) :
    IsTextOf (d.render layout) d := by
  unfold Digits.render
  split
  next hplain =>
    split
    next hneg => exact isTextOf_below_one hd hneg
    next hneg => exact isTextOf_plain hd (not_lt.1 hneg) (hplain.2.trans hlargest)
  next => exact isTextOf_scientific hd

/-! ### Finite values -/

theorem Proper.exponent_le (hd : Proper d) (h : value d ≤ surelyRead) : d.exponent ≤ 308 := by
  by_cases hzero : d.digits.head? = some '0'
  · rw [hd.eq_zero hzero]
    decide
  · by_contra hgreat
    have hpos : 0 < d.digits.length := List.length_pos_of_ne_nil hd.ne_nil
    have hdigits : ((10 : ℚ) ^ (d.digits.length - 1)) ≤ (Nat.ofDigitChars 10 d.digits 0 : Nat) := by
      exact_mod_cast pow_le_ofDigitChars hd.isDigit hd.ne_nil hzero
    have hvalue : (10 : ℚ) ^ (309 : Int) ≤ value d :=
      calc (10 : ℚ) ^ (309 : Int) ≤ 10 ^ d.exponent :=
            zpow_le_zpow_right₀ (by norm_num) (by omega)
        _ = 10 ^ (d.digits.length - 1) * 10 ^ (d.exponent + 1 - d.digits.length) := by
            rw [← zpow_natCast, ← zpow_add₀ (by norm_num)]
            congr 1
            omega
        _ ≤ value d := mul_le_mul_of_nonneg_right hdigits (by positivity)
    exact absurd (hvalue.trans h) (not_le.2 surelyRead_lt)

theorem isSome_of_isTextOf {text : List Char} (htext : IsTextOf text d) (hd : Proper d)
    (h : value d ≤ surelyRead) (negative : Bool) :
    ((readNumberText? (signText negative ++ text)).bind Number.ofText?).isSome = true := by
  obtain ⟨t, ht, hvalue, hwhole, htens⟩ := htext negative
  have hle : t.tens ≤ maxExponent := by
    have hexponent := hd.exponent_le h
    have hmax : (308 : Int) ≤ maxExponent := by decide
    rcases htens with htens | htens
    · omega
    · omega
  rw [ht, Option.bind_some]
  exact isSome_ofText? hwhole hle (hvalue.trans_le h)

/-- **A value that is not too great** is read of its text. -/
theorem isSome_renderBinary (hlargest : layout.largest ≤ 18) {m : Nat} {e : Int}
    (h : ((m : ℚ) + 1 / 2) * 2 ^ e ≤ surelyRead) (negative narrow : Bool) :
    ((readNumberText? (renderBinary layout (.finite negative m e narrow))).bind
      Number.ofText?).isSome = true := by
  have hshortest : Proper (shortest m e narrow) ∧ value (shortest m e narrow) ≤ surelyRead := by
    rcases Decimal.shortest_cases m e narrow with hzero | ⟨hpos, c, unit, hback, hpoint⟩
    · rw [hzero]
      refine ⟨proper_zero, le_of_eq_of_le (zero_mul _) ?_⟩
      unfold surelyRead
      positivity
    · obtain ⟨hc, hle⟩ := Decimal.roundsBack_bounds hback hpos
      obtain ⟨hproper, hvalue⟩ := proper_ofPoint hc unit
      rw [hpoint]
      exact ⟨hproper, hvalue.trans_le (hle.trans h)⟩
  exact isSome_of_isTextOf (isTextOf_render hshortest.1 hlargest) hshortest.1 hshortest.2 negative

/-! ### Doubles and singles -/

/-- What is not finite is written as `null`. -/
theorem renderBinary_of_not_isFinite {b : Binary} (h : ¬ b.IsFinite) (layout : Decimal.Layout) :
    renderBinary layout b = ['n', 'u', 'l', 'l'] := by
  cases b with
  | nan => rfl
  | infinite => rfl
  | finite => exact absurd trivial h

/-- The two greatest doubles. -/
theorem isSome_top : ∀ negative narrow : Bool, ∀ m ∈ [2 ^ 53 - 1, 2 ^ 53 - 2],
    ((readNumberText? (renderBinary doubleLayout (.finite negative m 971 narrow))).bind
      Number.ofText?).isSome = true := by
  decide +kernel

/-- Values of 53 bits at a place below the last one are not too great. -/
theorem le_surelyRead {m : Nat} {e : Int} (hm : m < 2 ^ 53) (he : e ≤ 970) :
    ((m : ℚ) + 1 / 2) * 2 ^ e ≤ surelyRead := by
  have hcast : ((m + 1 : Nat) : ℚ) ≤ (2 ^ 53 : Nat) := Nat.cast_le.2 hm
  push_cast at hcast
  calc ((m : ℚ) + 1 / 2) * 2 ^ e ≤ (2 ^ 54 - 5) * 2 ^ (970 : Int) :=
        mul_le_mul (by linarith) (zpow_le_zpow_right₀ one_le_two he) (by positivity)
          (by norm_num)
    _ = surelyRead := rfl

/-- **A double is read of its text,** if perhaps as another one, if and only if it is finite. -/
theorem isSome_readBack?_double_iff (x : Float) :
    (Number.double x).readBack?.isSome = true ↔ x.isFinite = true := by
  rw [← Decimal.isFinite_ofDouble_iff]
  show ((readNumberText? (renderBinary doubleLayout (.ofDouble x))).bind
    Number.ofText?).isSome = true ↔ _
  cases hx : Binary.ofDouble x with
  | nan => exact iff_of_false Bool.false_ne_true id
  | infinite negative => exact iff_of_false Bool.false_ne_true id
  | finite negative m e narrow =>
    refine iff_of_true ?_ trivial
    obtain ⟨hm, he⟩ : m < 2 ^ 53 ∧ e ≤ 971 := Decimal.bounds_of_ofBits (by decide) hx
    rcases he.lt_or_eq with hlow | rfl
    · exact isSome_renderBinary (by decide) (le_surelyRead hm (by omega)) negative narrow
    · -- All but the two greatest significands are not too great.
      by_cases htop : 2 ^ 53 - 2 ≤ m
      · exact isSome_top negative narrow m (by simp; omega)
      · refine isSome_renderBinary (by decide) ?_ negative narrow
        have hcast : ((m + 3 : Nat) : ℚ) ≤ (2 ^ 53 : Nat) := Nat.cast_le.2 (by omega)
        push_cast at hcast
        calc ((m : ℚ) + 1 / 2) * 2 ^ (971 : Int) = (2 * m + 1) * 2 ^ (970 : Int) := by
              rw [show (971 : Int) = 970 + 1 from rfl, zpow_add_one₀ two_ne_zero]
              ring
          _ ≤ surelyRead := mul_le_mul_of_nonneg_right (by linarith) (by positivity)

/-- **A single is read of its text** if and only if it is finite. -/
theorem isSome_readBack?_single_iff (x : Float32) :
    (Number.single x).readBack?.isSome = true ↔ x.isFinite = true := by
  rw [← Decimal.isFinite_ofSingle_iff]
  show ((readNumberText? (renderBinary singleLayout (.ofSingle x))).bind
    Number.ofText?).isSome = true ↔ _
  cases hx : Binary.ofSingle x with
  | nan => exact iff_of_false Bool.false_ne_true id
  | infinite negative => exact iff_of_false Bool.false_ne_true id
  | finite negative m e narrow =>
    obtain ⟨hm, he⟩ : m < 2 ^ 24 ∧ e ≤ 104 := Decimal.bounds_of_ofBits (by decide) hx
    exact iff_of_true
      (isSome_renderBinary (by decide) (le_surelyRead (by omega) (by omega)) negative narrow) trivial

end SparseGraph.Json
