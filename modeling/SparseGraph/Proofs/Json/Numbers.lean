import Mathlib.Data.List.TakeWhile
import SparseGraph.Json.Number
import SparseGraph.Proofs.Json.Trees
import SparseGraph.Proofs.Text.Numerals

namespace SparseGraph.Json

/-!
# Numbers that are written

Whatever can be read as a number at all is a single word, since nothing in it could end a word. An
integer of 64 bits is written as its digits and is read as itself. What is read of the text of a
double is a matter of rounding.

* `Number.readBack?` — the number that is read of the text of a number;
* `ReadsBack`, `SingleReadsBack` — a floating point value is read of its text;
* `writes_of_readNumberText?` — a word that is a number is read as that number;
* `readNumberText?_spelled` — what is read of a number that is spelled by its parts;
* `readBack?_integer` — integers are read as themselves.
-/

open Text (digits maxLong)

/-- The number that is read of the text of a number. -/
def Number.readBack? (n : Number) : Option Number :=
  (readNumberText? n.render).bind Number.ofText?

/-- The double is read of its text. Not every finite one is, since reading may miss the last
    place. -/
def ReadsBack (x : Float) : Prop :=
  (Number.double x).readBack? = some (.double x)

/-- The single is read of its text. -/
def SingleReadsBack (x : Float32) : Prop :=
  (Number.single x).readBack?.map Number.toSingle = some x

deriving instance DecidableEq for Number

instance (x : Float) : Decidable (ReadsBack x) :=
  inferInstanceAs (Decidable (_ = _))

instance (x : Float32) : Decidable (SingleReadsBack x) :=
  inferInstanceAs (Decidable (_ = _))

/-- Reading scales the digits only once, which here rounds to another double. -/
example : ¬ ReadsBack (1 / 11) := by decide +kernel

variable {w cs : List Char} {c : Char} {t : NumberText} {n : Nat}

/-! ### The characters of numbers -/

/-- Whether `c` may occur in a number. -/
def isNumeric (c : Char) : Bool :=
  c.isDigit || ['-', '+', '.', 'e', 'E'].contains c

/-- What may occur in a number does not end a word. -/
theorem endsWord_of_isNumeric (h : isNumeric c = true) : endsWord c = false := by
  have hmark : punctuation? c = none := by
    unfold punctuation?
    split <;> first | rfl | exact absurd h (by decide)
  have hc : c ∉ [' ', '\n', '\t', '\r', '"'] := by
    intro hc
    simp only [List.mem_cons, List.not_mem_nil, or_false] at hc
    rcases hc with rfl | rfl | rfl | rfl | rfl <;> cases h
  simp only [List.mem_cons, List.not_mem_nil, or_false, not_or] at hc
  simp [endsWord, isSpace, hmark, hc]

/-- Digits in front of what may occur in a number. -/
theorem isNumeric_of_spanDigits {rest : List Char} {ds : List Nat}
    (h : spanDigits cs = (ds, rest)) (hrest : ∀ c ∈ rest, isNumeric c = true) :
    ∀ c ∈ cs, isNumeric c = true := by
  intro c hc
  rw [← List.takeWhile_append_dropWhile (p := Char.isDigit) (l := cs), List.mem_append] at hc
  rcases hc with hc | hc
  · unfold isNumeric
    rw [List.all_eq_true.1 List.all_takeWhile c hc, Bool.true_or]
  · cases h
    exact hrest c hc

/-- A character in front of what may occur in a number. -/
theorem isNumeric_cons (hc : isNumeric c = true) (h : ∀ d ∈ cs, isNumeric d = true) :
    ∀ d ∈ c :: cs, isNumeric d = true :=
  List.forall_mem_cons.2 ⟨hc, h⟩

theorem isNumeric_of_readExponent? {e : Option (Bool × List Nat)}
    (h : readExponent? cs = some e) : ∀ c ∈ cs, isNumeric c = true := by
  unfold readExponent? at h
  split at h
  · simp
  next e cs =>
    split at h
    next he =>
      split at h
      next negative rest hsign =>
        split at h
        next hdigits =>
          have hrest := isNumeric_of_spanDigits hdigits (by simp)
          refine isNumeric_cons (by rcases he with rfl | rfl <;> rfl) ?_
          split at hsign <;> cases hsign
          · exact isNumeric_cons rfl hrest
          · exact isNumeric_cons rfl hrest
          · exact hrest
        next => cases h
    next => cases h

/-- **A word that is a number** holds nothing that could end it. -/
theorem isNumeric_of_readNumberText? (h : readNumberText? w = some t) :
    ∀ c ∈ w, isNumeric c = true := by
  unfold readNumberText? at h
  split at h
  next negative cs hsign =>
    -- Behind the sign come digits, perhaps a point and digits, and perhaps an exponent.
    have hcs : ∀ c ∈ cs, isNumeric c = true := by
      split at h
      next => cases h
      next => cases h
      next hwhole =>
        refine isNumeric_of_spanDigits hwhole (isNumeric_cons rfl ?_)
        split at h
        next => cases h
        next hfraction =>
          obtain ⟨e, he, _⟩ := Option.map_eq_some_iff.1 h
          exact isNumeric_of_spanDigits hfraction (isNumeric_of_readExponent? he)
      next hwhole =>
        obtain ⟨e, he, _⟩ := Option.map_eq_some_iff.1 h
        exact isNumeric_of_spanDigits hwhole (isNumeric_of_readExponent? he)
    split at hsign <;> cases hsign
    · exact isNumeric_cons rfl hcs
    · exact hcs

/-- **A word that is a number** is read as that number. -/
theorem writes_of_readNumberText? (h : readNumberText? w = some t) : Writes w (.number t) := by
  have hne : w ≠ [] := by
    rintro rfl
    cases h
  have hw : ∀ c ∈ w, endsWord c = false := fun c hc =>
    endsWord_of_isNumeric (isNumeric_of_readNumberText? h c hc)
  refine writes_word hne hw ?_
  -- It is none of the other words.
  unfold Node.ofWord?
  split
  next hnull => subst hnull; cases h
  next =>
    split
    next htrue => subst htrue; cases h
    next =>
      split
      next hfalse => subst hfalse; cases h
      next => rw [h]; rfl

/-- A number whose text is read as a number. -/
theorem exists_writes_render {n m : Number} (h : n.readBack? = some m) :
    ∃ t, Writes n.render (.number t) ∧ Number.ofText? t = some m := by
  obtain ⟨t, ht, hm⟩ := Option.bind_eq_some_iff.1 h
  exact ⟨t, writes_of_readNumberText? ht, hm⟩

/-! ### The parts of a number -/

/-- The value of a digit. -/
def digitOf (c : Char) : Nat :=
  c.toNat - '0'.toNat

theorem natOfDigits_map (cs : List Char) :
    natOfDigits (cs.map digitOf) = Nat.ofDigitChars 10 cs 0 :=
  List.foldl_map

theorem spanDigits_append {rest : List Char} (h : ∀ c ∈ cs, c.isDigit = true)
    (hrest : ∀ c ∈ rest.head?, c.isDigit = false) :
    spanDigits (cs ++ rest) = (cs.map digitOf, rest) := by
  have htake : rest.takeWhile Char.isDigit = [] := by
    cases rest with
    | nil => rfl
    | cons c rest => rw [List.takeWhile_cons_of_neg (by simp [hrest c rfl])]
  have hdrop : rest.dropWhile Char.isDigit = rest := by
    cases rest with
    | nil => rfl
    | cons c rest => rw [List.dropWhile_cons_of_neg (by simp [hrest c rfl])]
  unfold spanDigits
  rw [List.takeWhile_append_of_pos h, List.dropWhile_append_of_pos h, htake, hdrop,
    List.append_nil]
  rfl

/-- Digits that may stand in front of a point: at least one, and no zero with others behind it. -/
structure Leads (cs : List Char) : Prop where
  isDigit : ∀ c ∈ cs, c.isDigit = true
  ne_nil : cs ≠ []
  eq_zero : cs.head? = some '0' → cs = ['0']

theorem Leads.map_digitOf_ne (h : Leads cs) (d : Nat) (ds : List Nat) :
    cs.map digitOf ≠ 0 :: d :: ds := by
  intro heq
  cases cs with
  | nil => cases heq
  | cons c cs =>
    have hzero : c.toNat - '0'.toNat = 0 := (List.cons.inj heq).1
    have hlow : '0'.toNat ≤ c.toNat := (Text.isDigit_iff.1 (h.isDigit c List.mem_cons_self)).1
    have hc : c = '0' := Char.toNat_inj.1 (by omega)
    have hnil := h.eq_zero (congrArg some hc)
    rw [hnil] at heq
    cases heq

/-- **A number is read** by its parts: digits, behind a sign or not, then perhaps a point and more
    digits, and what stands behind them. -/
theorem readNumberText?_spelled {whole fraction tail : List Char}
    {exponent : Option (Bool × List Nat)} (negative : Bool) (hwhole : Leads whole)
    (hfraction : ∀ c ∈ fraction, c.isDigit = true) (htail : readExponent? tail = some exponent)
    (hend : ∀ c ∈ tail.head?, c.isDigit = false ∧ c ≠ '.') :
    readNumberText? ((if negative then ['-'] else []) ++
        (whole ++ (Decimal.pointed fraction ++ tail))) =
      some ⟨negative, whole.map digitOf, fraction.map digitOf, exponent⟩ := by
  have hne : whole.map digitOf ≠ [] := fun h => hwhole.ne_nil (List.map_eq_nil_iff.1 h)
  have hrest : ∀ c ∈ (Decimal.pointed fraction ++ tail).head?, c.isDigit = false := by
    cases fraction with
    | nil => exact fun c hc => (hend c hc).1
    | cons d ds =>
      intro c hc
      cases hc
      rfl
  have hspan := spanDigits_append hwhole.isDigit hrest
  obtain ⟨c, cs, hcs⟩ := List.exists_cons_of_ne_nil hwhole.ne_nil
  unfold readNumberText?
  split
  next negative' word hsign =>
    have heq : negative' = negative ∧ word = whole ++ (Decimal.pointed fraction ++ tail) := by
      cases negative with
      | true =>
        cases hsign
        exact ⟨rfl, rfl⟩
      | false =>
        -- A digit is no sign.
        split at hsign
        next word hword =>
          rw [hcs] at hword
          have hminus : '-'.isDigit = true := by
            have hc : c = '-' := (List.cons.inj hword).1
            exact hc ▸ hwhole.isDigit c (hcs ▸ List.mem_cons_self)
          cases hminus
        next =>
          cases hsign
          exact ⟨rfl, rfl⟩
    obtain ⟨rfl, rfl⟩ := heq
    rw [hspan]
    split
    next heq => exact absurd (Prod.mk.inj heq).1 hne
    next heq => exact absurd (Prod.mk.inj heq).1 (hwhole.map_digitOf_ne _ _)
    next more _ _ heq =>
      obtain ⟨rfl, hmore⟩ := Prod.mk.inj heq
      cases fraction with
      | nil => exact absurd rfl (hend '.' (congrArg List.head? hmore)).2
      | cons d ds =>
        obtain rfl : d :: ds ++ tail = more := (List.cons.inj hmore).2
        rw [spanDigits_append hfraction fun c hc => (hend c hc).1]
        show (readExponent? tail).map _ = _
        rw [htail]
        rfl
    next hpoint heq =>
      obtain ⟨rfl, rfl⟩ := Prod.mk.inj heq
      cases fraction with
      | nil =>
        show (readExponent? tail).map _ = _
        rw [htail]
        rfl
      | cons d ds => exact absurd rfl (hpoint _)

/-! ### Integers -/

theorem isDigit_of_mem_digits (hc : c ∈ digits n) : c.isDigit = true :=
  Nat.isDigit_of_mem_toDigits (by decide) (by decide) hc

/-- A positive number is written without a zero in front. -/
theorem head?_digits_ne_zero (hn : 0 < n) : (digits n).head? ≠ some '0' := by
  -- The first digit is that of the number without its last digit, if there are several.
  induction n using Nat.strongRecOn with
  | ind n ih =>
    unfold digits at ih ⊢
    by_cases hlt : n < 10
    · rw [Nat.toDigits_of_lt_base hlt]
      have hdigit : ∀ d < 10, 0 < d → Nat.digitChar d ≠ '0' := by decide
      simpa using hdigit n hlt hn
    · have hdiv : 0 < n / 10 := by omega
      rw [Nat.toDigits_of_base_le (by decide) (by omega),
        List.head?_append_of_ne_nil _ Nat.toDigits_ne_nil]
      exact ih (n / 10) (by omega) hdiv

theorem leads_digits (n : Nat) : Leads (digits n) where
  isDigit _ := isDigit_of_mem_digits
  ne_nil := Nat.toDigits_ne_nil
  eq_zero h := by
    rcases Nat.eq_zero_or_pos n with rfl | hn
    · rfl
    · exact absurd h (head?_digits_ne_zero hn)

theorem natOfDigits_map_digitOf (n : Nat) : natOfDigits ((digits n).map digitOf) = n :=
  (natOfDigits_map (digits n)).trans Nat.ofDigitChars_ten_toDigits

/-- The digits of a number are read as these digits, with or without a sign in front. -/
theorem readNumberText?_digits (negative : Bool) (n : Nat) :
    readNumberText? ((if negative then ['-'] else []) ++ digits n) =
      some ⟨negative, (digits n).map digitOf, [], none⟩ := by
  have h := readNumberText?_spelled negative (leads_digits n) (List.forall_mem_nil _)
    (show readExponent? [] = some none from rfl) (by simp)
  rwa [show digits n ++ (Decimal.pointed [] ++ []) = digits n from List.append_nil _] at h

/-- **An integer of 64 bits, signed or unsigned, is read as itself.** -/
theorem readBack?_integer {i : Int} (hlow : -(lowestMagnitude : Int) ≤ i)
    (hhigh : i ≤ (maxLong : Int)) : (Number.integer i).readBack? = some (.integer i) := by
  have hrender : (Number.integer i).render =
      (if decide (i < 0) = true then ['-'] else []) ++ digits i.natAbs := by
    show renderInteger i = _
    unfold renderInteger
    simp
  unfold Number.readBack?
  rw [hrender, readNumberText?_digits, Option.bind_some]
  unfold Number.ofText?
  rw [natOfDigits_map_digitOf]
  -- The bound on the side of its sign is the one that is checked.
  by_cases hsign : i < 0
  · have hle : i.natAbs ≤ lowestMagnitude := by omega
    have hpos : 0 < i.natAbs := by omega
    have heq : -(i.natAbs : Int) = i := by omega
    exact (if_neg (by simp [hsign])).trans ((if_pos (by simp [hsign, hle, hpos])).trans
      (congrArg (some <| Number.integer ·) heq))
  · have hle : i.natAbs ≤ maxLong := by omega
    have heq : (i.natAbs : Int) = i := by omega
    exact (if_pos (by simp [hsign, hle])).trans (congrArg (some <| Number.integer ·) heq)

end SparseGraph.Json
