import SparseGraph.Text.Blank
import SparseGraph.Text.Numeral

namespace SparseGraph.Text

/-!
# Numerals

What a numeral is, said without reading it, and that reading accepts just the numerals whose number
is within the bound.

* `Denotes` — a text is a numeral of a number: at most one `+`, then ASCII digits;
* `readNumeral_eq_ok_iff`, `readWord_eq_ok_iff` — reading accepts the numerals within the bound;
* `denotes_digits` — the numeral that is written for a number denotes it.
-/

/-- The text is a numeral of `n`: ASCII digits, and perhaps one `+` in front. -/
def Denotes (text : List Char) (n : Nat) : Prop :=
  ∃ sign ds, (sign = [] ∨ sign = ['+']) ∧ text = sign ++ ds ∧ ds ≠ [] ∧
    (∀ c ∈ ds, c.isDigit = true) ∧ Nat.ofDigitChars 10 ds 0 = n

/-! ### Digits -/

variable {bound value n : Nat} {text : List Char} {c : Char}

theorem isDigit_iff : c.isDigit = true ↔ '0' ≤ c ∧ c ≤ '9' := by
  simp only [Char.isDigit, Bool.and_eq_true, decide_eq_true_eq, ge_iff_le]
  exact Iff.rfl

theorem digitValue?_of_isDigit (h : c.isDigit = true) :
    digitValue? c = some (c.toNat - '0'.toNat) := by
  unfold digitValue?
  rw [if_pos (isDigit_iff.1 h)]

theorem digitValue?_of_not_isDigit (h : ¬ c.isDigit = true) : digitValue? c = none := by
  unfold digitValue?
  rw [if_neg fun hc => h (isDigit_iff.2 hc)]

/-- Further digits do not make a number less. -/
theorem le_ofDigitChars (value : Nat) (ds : List Char) : value ≤ Nat.ofDigitChars 10 ds value := by
  induction ds generalizing value with
  | nil => simp
  | cons c ds ih =>
    rw [Nat.ofDigitChars_cons]
    have hrest := ih (10 * value + (c.toNat - '0'.toNat))
    omega

/-- **Reading digits** accepts digits alone, and a number within the bound. -/
theorem readDigits_eq_ok_iff {ds : List Char} (hvalue : value ≤ bound) :
    readDigits bound value ds = .ok n ↔
      (∀ c ∈ ds, c.isDigit = true) ∧ Nat.ofDigitChars 10 ds value = n ∧ n ≤ bound := by
  -- The bound is kept by the value read so far, digit by digit.
  induction ds generalizing value with
  | nil =>
    simp only [readDigits, Except.ok.injEq, Nat.ofDigitChars_nil, List.not_mem_nil, false_implies,
      implies_true, true_and]
    constructor
    · rintro rfl
      exact ⟨rfl, hvalue⟩
    · exact And.left
  | cons c ds ih =>
    rw [readDigits, Nat.ofDigitChars_cons]
    by_cases hc : c.isDigit = true
    · rw [digitValue?_of_isDigit hc]
      dsimp only
      by_cases hover : bound < 10 * value + (c.toNat - '0'.toNat)
      · -- The number only grows from here, so it stays beyond the bound.
        have hle := le_ofDigitChars (10 * value + (c.toNat - '0'.toNat)) ds
        simp only [hover, if_true, reduceCtorEq, false_iff]
        rintro ⟨_, rfl, hbound⟩
        omega
      · rw [if_neg hover, ih (Nat.le_of_not_lt hover)]
        simp only [List.mem_cons, forall_eq_or_imp, hc, true_and]
    · rw [digitValue?_of_not_isDigit hc]
      simp [hc]

/-! ### Numerals -/

/-- A numeral without a sign. -/
theorem denotes_of_isDigit (hne : text ≠ []) (hdigits : ∀ c ∈ text, c.isDigit = true) :
    Denotes text (Nat.ofDigitChars 10 text 0) :=
  ⟨[], text, .inl rfl, rfl, hne, hdigits, rfl⟩

/-- **Reading accepts just the numerals** whose number is within the bound. -/
theorem readNumeral_eq_ok_iff : readNumeral bound text = .ok n ↔ Denotes text n ∧ n ≤ bound := by
  constructor
  · intro h
    unfold readNumeral at h
    split at h
    · cases h
    · cases h
    next rest hrest =>
      obtain ⟨hdigits, hn, hle⟩ := (readDigits_eq_ok_iff (Nat.zero_le bound)).1 h
      refine ⟨⟨['+'], rest, .inr rfl, rfl, ?_, hdigits, hn⟩, hle⟩
      rintro rfl
      exact hrest rfl
    next hne _ _ =>
      obtain ⟨hdigits, hn, hle⟩ := (readDigits_eq_ok_iff (Nat.zero_le bound)).1 h
      exact ⟨hn ▸ denotes_of_isDigit hne hdigits, hle⟩
  · rintro ⟨⟨sign, ds, hsign, rfl, hne, hdigits, hn⟩, hle⟩
    have hread := (readDigits_eq_ok_iff (Nat.zero_le bound)).2 ⟨hdigits, hn, hle⟩
    obtain ⟨c, ds, rfl⟩ := List.exists_cons_of_ne_nil hne
    rcases hsign with rfl | rfl
    · -- The first digit is no sign.
      have hc : c ≠ '+' := by
        rintro rfl
        exact absurd (hdigits '+' List.mem_cons_self) (by decide)
      unfold readNumeral
      split
      next heq => cases heq
      next heq => exact absurd (List.cons.inj heq).1 hc
      next heq => exact absurd (List.cons.inj heq).1 hc
      next => exact hread
    · exact hread

/-- The numbers that a word can hold. -/
theorem lt_size_iff : n < UInt32.size ↔ n ≤ maxWord := by
  unfold maxWord
  simp only [UInt32.size]
  omega

theorem toNat_le_maxWord (w : UInt32) : w.toNat ≤ maxWord :=
  lt_size_iff.1 w.toNat_lt

/-- **Reading a word** accepts just the numerals of words. -/
theorem readWord_eq_ok_iff {w : UInt32} : readWord text = .ok w ↔ Denotes text w.toNat := by
  unfold readWord
  constructor
  · intro h
    cases hread : readNumeral maxWord text with
    | error fault => rw [hread] at h; cases h
    | ok n =>
      rw [hread] at h
      obtain ⟨hn, hle⟩ := readNumeral_eq_ok_iff.1 hread
      cases h
      rwa [UInt32.toNat_ofNat_of_lt' (lt_size_iff.2 hle)]
  · intro h
    rw [readNumeral_eq_ok_iff.2 ⟨h, toNat_le_maxWord w⟩]
    simp [Except.map]

/-! ### Written numerals -/

/-- **The numeral that is written for a number denotes it.** -/
theorem denotes_digits (n : Nat) : Denotes (digits n) n := by
  have hdigits : ∀ c ∈ digits n, c.isDigit = true := by
    intro c hc
    exact Nat.isDigit_of_mem_toDigits (by decide) (by decide) hc
  have hdenotes := denotes_of_isDigit Nat.toDigits_ne_nil hdigits
  rwa [Nat.ofDigitChars_ten_toDigits] at hdenotes

/-- A digit is no blank. -/
theorem isBlank_eq_false_of_isDigit (h : c.isDigit = true) : isBlank c = false := by
  obtain ⟨hfirst, hlast⟩ := isDigit_iff.1 h
  have hlow : 48 ≤ c.toNat := hfirst
  have hhigh : c.toNat ≤ 57 := hlast
  simp only [isBlank, blankRanges, List.any_cons, List.any_nil, Bool.or_false, Bool.or_eq_false_iff,
    Bool.and_eq_false_iff, decide_eq_false_iff_not]
  omega

/-- Written numerals hold no blanks. -/
theorem isBlank_eq_false_of_mem_digits (hc : c ∈ digits n) : isBlank c = false :=
  isBlank_eq_false_of_isDigit (Nat.isDigit_of_mem_toDigits (by decide) (by decide) hc)

end SparseGraph.Text
