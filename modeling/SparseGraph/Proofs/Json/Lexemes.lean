import SparseGraph.Json.Value

namespace SparseGraph.Json

/-!
# Lexemes that are written

A text that is put together from marks, words and quoted strings is read lexeme by lexeme, whatever
was found before it. What follows must not carry on a word at its end. Such a text stands on one
line, since a line feed within a string is written as an escape.

* `WordEnd` — a text in front of which a word ends;
* `Spells` — a text on one line that is read as given lexemes;
* `Spells.mark`, `Spells.word`, `Spells.append` — texts put together;
* `spells_renderText` — a string between its quotes is one lexeme;
* `decodeText?_unitsOf` — which denotes the string.
-/

/-- Whether `c` ends a word in front of it. -/
def endsWord (c : Char) : Bool :=
  isSpace c || (punctuation? c).isSome || c == '"'

/-- A word in front of the text ends there. -/
def WordEnd (text : List Char) : Prop :=
  ∀ c ∈ text.head?, endsWord c = true

/-- The lexemes that are found in the end, if `text` is what is left to read. -/
def Lexer.run? (l : Lexer) (text : List Char) : Option (List Lexeme) :=
  (text.foldlM Lexer.step l).bind Lexer.finish?

/-- The text stands on one line and is read as these lexemes, whatever comes before it and whatever
    comes after it that ends a word. -/
structure Spells (text : List Char) (ls : List Lexeme) : Prop where
  oneLine : '\n' ∉ text
  run?_append : ∀ found rest, WordEnd rest →
    Lexer.run? ⟨.between, found⟩ (text ++ rest) = Lexer.run? ⟨.between, ls.reverse ++ found⟩ rest

variable {text t₁ t₂ w chars written : List Char} {ls ls₁ ls₂ found : List Lexeme} {m : Lexeme}
  {unit : TextUnit} {units : List TextUnit} {c : Char} {l : Lexer} {n : Nat}

theorem Lexer.run?_cons : l.run? (c :: text) = (l.step c).bind (Lexer.run? · text) := by
  unfold Lexer.run?
  rw [List.foldlM_cons]
  exact Option.bind_assoc _ _ _

/-- What is left to read is read from where the characters before it lead. -/
theorem Lexer.run?_append {l' : Lexer} {rest : List Char}
    (h : text.foldlM Lexer.step l = some l') : l.run? (text ++ rest) = l'.run? rest := by
  unfold Lexer.run?
  rw [List.foldlM_append, h]
  rfl

/-! ### Marks -/

/-- A mark ends a word and is no line feed. -/
theorem endsWord_of_punctuation? (h : punctuation? c = some m) : endsWord c = true ∧ c ≠ '\n' := by
  unfold punctuation? at h
  split at h <;> cases h <;> exact ⟨rfl, by decide⟩

/-- A mark is one lexeme. -/
theorem next_of_punctuation? (h : punctuation? c = some m) :
    Lexer.next found c = ⟨.between, m :: found⟩ := by
  unfold punctuation? at h
  split at h <;> cases h <;> rfl

theorem wordEnd_cons (h : punctuation? c = some m) : WordEnd (c :: text) := by
  intro d hd
  cases hd
  exact (endsWord_of_punctuation? h).1

theorem Spells.nil : Spells [] [] :=
  ⟨List.not_mem_nil, fun _ _ _ => rfl⟩

/-- A mark in front of a text. -/
theorem Spells.mark (h : punctuation? c = some m) (ht : Spells text ls) :
    Spells (c :: text) (m :: ls) where
  oneLine := by
    rw [List.mem_cons, not_or]
    exact ⟨(endsWord_of_punctuation? h).2.symm, ht.oneLine⟩
  run?_append := by
    intro found rest hrest
    have hstep : Lexer.step ⟨.between, found⟩ c = some ⟨.between, m :: found⟩ :=
      congrArg some (next_of_punctuation? h)
    rw [List.cons_append, Lexer.run?_cons, hstep, Option.bind_some,
      ht.run?_append (m :: found) rest hrest, List.reverse_cons, List.append_assoc,
      List.singleton_append]

/-- One text behind another. -/
theorem Spells.append (h₁ : Spells t₁ ls₁) (h₂ : Spells t₂ ls₂) (hend : WordEnd t₂) :
    Spells (t₁ ++ t₂) (ls₁ ++ ls₂) where
  oneLine := by
    rw [List.mem_append, not_or]
    exact ⟨h₁.oneLine, h₂.oneLine⟩
  run?_append := by
    intro found rest hrest
    -- The first text ends in front of the second one or, if that is empty, of what follows.
    have hbetween : WordEnd (t₂ ++ rest) := by
      cases t₂ with
      | nil => exact hrest
      | cons c t₂ => exact hend
    rw [List.append_assoc, h₁.run?_append found _ hbetween, h₂.run?_append _ rest hrest,
      List.reverse_append, List.append_assoc]

/-- These are the lexemes of the text. -/
theorem Spells.lexemes?_eq (h : Spells text ls) : lexemes? text = some ls := by
  have hrun := h.run?_append [] [] fun c hc => by cases hc
  rw [List.append_nil] at hrun
  show Lexer.run? ⟨.between, []⟩ text = _
  rw [hrun]
  show some (ls.reverse ++ []).reverse = _
  rw [List.append_nil, List.reverse_reverse]

/-! ### Words -/

/-- The characters of a word are read one by one, up to where it ends. -/
theorem run?_inWord (hw : ∀ c ∈ w, endsWord c = false) {rest : List Char} (hrest : WordEnd rest) :
    Lexer.run? ⟨.inWord chars, found⟩ (w ++ rest) =
      Lexer.run? ⟨.between, .word (chars.reverse ++ w) :: found⟩ rest := by
  -- Induction on what is left of the word; `chars` holds in reverse what has been read of it.
  induction w generalizing chars with
  | nil =>
    cases rest with
    | nil =>
      show some (Lexeme.word chars.reverse :: found).reverse = some _
      rw [List.append_nil]
    | cons c rest =>
      have hc : endsWord c = true := hrest c rfl
      have hstep : Lexer.step ⟨.inWord chars, found⟩ c =
          some (Lexer.next (.word chars.reverse :: found) c) := if_pos hc
      rw [List.nil_append, List.append_nil, Lexer.run?_cons, Lexer.run?_cons, hstep]
      rfl
  | cons c w ih =>
    have hc : endsWord c = false := hw c List.mem_cons_self
    have hstep : Lexer.step ⟨.inWord chars, found⟩ c = some ⟨.inWord (c :: chars), found⟩ :=
      if_neg (Bool.eq_false_iff.1 hc)
    rw [List.cons_append, Lexer.run?_cons, hstep, Option.bind_some,
      ih fun d hd => hw d (List.mem_cons_of_mem c hd), List.reverse_cons, List.append_assoc,
      List.singleton_append]

/-- A word without characters that would end it is one lexeme. -/
theorem Spells.word (hne : w ≠ []) (hw : ∀ c ∈ w, endsWord c = false) : Spells w [.word w] where
  oneLine := by
    intro hmem
    exact absurd (hw '\n' hmem) (by decide)
  run?_append := by
    intro found rest hrest
    obtain ⟨c, w, rfl⟩ := List.exists_cons_of_ne_nil hne
    have hc : (isSpace c = false ∧ punctuation? c = none) ∧ c ≠ '"' := by
      simpa [endsWord] using hw c List.mem_cons_self
    have hstep : Lexer.step ⟨.between, found⟩ c = some ⟨.inWord [c], found⟩ := by
      show some (Lexer.next found c) = _
      unfold Lexer.next
      rw [if_neg (Bool.eq_false_iff.1 hc.1.1), hc.1.2]
      exact congrArg some (if_neg hc.2)
    rw [List.cons_append, Lexer.run?_cons, hstep, Option.bind_some,
      run?_inWord (fun d hd => hw d (List.mem_cons_of_mem c hd)) hrest]
    rfl

/-! ### Strings -/

/-- How a character is read that was written in a string: a control character without a short
    escape by its code. -/
def unitOf (c : Char) : TextUnit :=
  if c.toNat < 0x20 ∧ c ∉ ['\n', '\r', '\t', '\x08', '\x0c'] then .code c.toNat else .char c

/-- How a string is read that was written. -/
def unitsOf (s : String) : List TextUnit :=
  s.toList.map unitOf

/-- The ways to write a character in a string, and how each is read. -/
inductive Escaped (c : Char) : List Char → TextUnit → Prop
  | short {e : Char} (he : shortEscape? e = some c) : Escaped c ['\\', e] (.char c)
  | code (h : c.toNat < 0x20) :
      Escaped c ['\\', 'u', '0', '0', Nat.digitChar (c.toNat / 16), Nat.digitChar (c.toNat % 16)]
        (.code c.toNat)
  | plain (hquote : c ≠ '"') (hslash : c ≠ '\\') (h : ¬ c.toNat < 0x20) : Escaped c [c] (.char c)

/-- Every character is written in one of these ways. -/
theorem escaped_escapeChar (c : Char) : Escaped c (escapeChar c) (unitOf c) := by
  -- Short escapes are listed; of all other characters only the control characters need a code.
  by_cases hshort : c ∈ ['"', '\\', '\n', '\r', '\t', '\x08', '\x0c']
  · simp only [List.mem_cons, List.not_mem_nil, or_false] at hshort
    rcases hshort with rfl | rfl | rfl | rfl | rfl | rfl | rfl <;> exact .short rfl
  · have hnone : c ≠ '"' ∧ c ≠ '\\' ∧ c ≠ '\n' ∧ c ≠ '\r' ∧ c ≠ '\t' ∧ c ≠ '\x08' ∧ c ≠ '\x0c' := by
      simpa only [List.mem_cons, List.not_mem_nil, or_false, not_or] using hshort
    obtain ⟨hquote, hslash, hn, hr, ht, hb, hf⟩ := hnone
    unfold escapeChar unitOf
    rw [if_neg hquote, if_neg hslash, if_neg hn, if_neg hr, if_neg ht, if_neg hb, if_neg hf]
    by_cases hcontrol : c.toNat < 0x20
    · have hlisted : c ∉ ['\n', '\r', '\t', '\x08', '\x0c'] := by
        simp only [List.mem_cons, List.not_mem_nil, hn, hr, ht, hb, hf, or_self, not_false_eq_true]
      rw [if_pos hcontrol, if_pos ⟨hcontrol, hlisted⟩]
      exact .code hcontrol
    · rw [if_neg hcontrol, if_neg fun h => hcontrol h.1]
      exact .plain hquote hslash hcontrol

/-- The digits in base 16 below 16, of which none is a line feed. -/
theorem hexValue?_digitChar : ∀ d < 16, hexValue? (Nat.digitChar d) = some d := by decide

theorem digitChar_ne_newline : ∀ d < 16, Nat.digitChar d ≠ '\n' := by decide

/-- **A character of a string** is read as it was written. -/
theorem Escaped.foldlM_step (h : Escaped c written unit) :
    written.foldlM Lexer.step ⟨.inText units, found⟩ = some ⟨.inText (unit :: units), found⟩ := by
  cases h with
  | short he =>
    rename_i e
    have hu : e ≠ 'u' := by
      rintro rfl
      cases he
    simp [Lexer.step, hu, he]
  | code h =>
    have hhigh := hexValue?_digitChar (c.toNat / 16) (by omega)
    have hlow := hexValue?_digitChar (c.toNat % 16) (Nat.mod_lt _ (by decide))
    have hzero : hexValue? '0' = some 0 := rfl
    simp [Lexer.step, hhigh, hlow, hzero, Nat.div_add_mod]
  | plain hquote hslash h => simp [Lexer.step, hquote, hslash, h]

/-- No line feed is written within a string. -/
theorem Escaped.newline_notMem (h : Escaped c written unit) : '\n' ∉ written := by
  cases h with
  | short he =>
    rename_i e
    have hline : '\n' ≠ e := by
      rintro rfl
      cases he
    simp [hline]
  | code h =>
    have hhigh := digitChar_ne_newline (c.toNat / 16) (by omega)
    have hlow := digitChar_ne_newline (c.toNat % 16) (Nat.mod_lt _ (by decide))
    simp [hhigh.symm, hlow.symm]
  | plain hquote hslash h =>
    rw [List.mem_singleton]
    rintro rfl
    exact h (by decide)

/-- The characters of a string are read as they were written. -/
theorem foldlM_flatMap_escapeChar (cs : List Char) :
    (cs.flatMap escapeChar).foldlM Lexer.step ⟨.inText units, found⟩ =
      some ⟨.inText ((cs.map unitOf).reverse ++ units), found⟩ := by
  -- Each character puts its unit in front of those that were read before it.
  induction cs generalizing units with
  | nil => rfl
  | cons c cs ih =>
    rw [List.flatMap_cons, List.foldlM_append, (escaped_escapeChar c).foldlM_step,
      Option.bind_eq_bind, Option.bind_some, ih, List.map_cons, List.reverse_cons,
      List.append_assoc, List.singleton_append]

/-- **A string between its quotes** is one lexeme. -/
theorem spells_renderText (s : String) : Spells (renderText s) [.text (unitsOf s)] where
  oneLine := by
    intro hmem
    have hinside : '\n' ∈ s.toList.flatMap escapeChar := by simpa [renderText] using hmem
    obtain ⟨c, _, hc⟩ := List.mem_flatMap.1 hinside
    exact (escaped_escapeChar c).newline_notMem hc
  run?_append := by
    intro found rest _
    have hclose : Lexer.step ⟨.inText (s.toList.map unitOf).reverse, found⟩ '"' =
        some ⟨.between, .text (unitsOf s) :: found⟩ := by
      show some (Lexer.mk .between (.text (s.toList.map unitOf).reverse.reverse :: found)) = _
      rw [List.reverse_reverse]
      rfl
    refine Lexer.run?_append ?_
    unfold renderText
    rw [List.cons_append, List.foldlM_cons]
    show List.foldlM Lexer.step ⟨.inText [], found⟩ _ = _
    rw [List.foldlM_append, foldlM_flatMap_escapeChar, List.append_nil, Option.bind_eq_bind,
      Option.bind_some, List.foldlM_cons, hclose]
    rfl

/-- A code that is no surrogate is a character, whatever follows. -/
theorem decodeUnits?_code (hn : n < 0xD800) :
    decodeUnits? (.code n :: units) = (decodeUnits? units).map (Char.ofNat n :: ·) := by
  have hhigh : isHighSurrogate n = false := by
    unfold isHighSurrogate
    rw [Bool.and_eq_false_iff, decide_eq_false_iff_not]
    exact .inl (by omega)
  have hlow : isLowSurrogate n = false := by
    unfold isLowSurrogate
    rw [Bool.and_eq_false_iff, decide_eq_false_iff_not]
    exact .inl (by omega)
  -- A code behind it is looked at only if this one is the first of a pair.
  rcases units with _ | ⟨_ | _, units⟩ <;> simp [decodeUnits?, hhigh, hlow]

/-- A character is denoted by how it is read. -/
theorem Escaped.decodeUnits?_cons (h : Escaped c written unit) :
    decodeUnits? (unit :: units) = (decodeUnits? units).map (c :: ·) := by
  cases h with
  | short | plain => rfl
  | code h => rw [decodeUnits?_code (by omega), Char.ofNat_toNat]

/-- **A string that is written denotes itself.** -/
theorem decodeText?_unitsOf (s : String) : decodeText? (unitsOf s) = some s := by
  have hchars : ∀ cs : List Char, decodeUnits? (cs.map unitOf) = some cs := by
    intro cs
    induction cs with
    | nil => rfl
    | cons c cs ih =>
      rw [List.map_cons, (escaped_escapeChar c).decodeUnits?_cons, ih]
      rfl
  unfold decodeText? unitsOf
  rw [hchars]
  simp

end SparseGraph.Json
