import Mathlib.Data.List.DropRight
import SparseGraph.Proofs.Text.Numerals
import SparseGraph.Text.Words

namespace SparseGraph.Text

/-!
# Tokens of a text

What the tokens of a text are, said in one pass from left to right and without cutting the text into
lines: blanks are passed over, a line feed among them begins the next line, and a run of other
characters that ends at a blank or with the text is a word.

* `Tokenized` — the tokens of a text whose first line has a given number;
* `tokenized_iff` — they are those that are found line by line;
* `lines_flatMap`, `map_text_tokens_flatMap` — words that are written one a line are read back;
* `lines_append_flatMap` — lines that are written behind a text follow its lines.
-/

/-- The tokens of a text whose first line has this number. -/
inductive Tokenized : Nat → List Char → List Token → Prop
  | nil {line : Nat} : Tokenized line [] []
  | newline {line : Nat} {rest : List Char} {ts : List Token} (h : Tokenized (line + 1) rest ts) :
      Tokenized line ('\n' :: rest) ts
  | blank {line : Nat} {c : Char} {rest : List Char} {ts : List Token} (hc : isBlank c = true)
      (hne : c ≠ '\n') (h : Tokenized line rest ts) : Tokenized line (c :: rest) ts
  | word {line : Nat} {w rest : List Char} {ts : List Token} (hne : w ≠ [])
      (hw : ∀ c ∈ w, isBlank c = false) (hend : ∀ c ∈ rest.head?, isBlank c = true)
      (h : Tokenized line rest ts) : Tokenized line (w ++ rest) (⟨line, w⟩ :: ts)

/-! ### Pieces -/

section
variable {isSeparator : Char → Bool} {text w p : List Char} {ps : List (List Char)} {c : Char}

/-- There is always a first piece. -/
theorem exists_pieces_eq_cons (isSeparator : Char → Bool) (text : List Char) :
    ∃ p ps, pieces isSeparator text = p :: ps := by
  cases text with
  | nil => exact ⟨[], [], rfl⟩
  | cons c rest =>
    show ∃ p ps, (if isSeparator c then [] :: pieces isSeparator rest
      else consFirst c (pieces isSeparator rest)) = p :: ps
    split
    · exact ⟨[], _, rfl⟩
    · cases pieces isSeparator rest with
      | nil => exact ⟨[c], [], rfl⟩
      | cons p ps => exact ⟨c :: p, ps, rfl⟩

/-- A separator ends a piece. -/
theorem pieces_cons_of_separator (hc : isSeparator c = true) :
    pieces isSeparator (c :: text) = [] :: pieces isSeparator text := by
  show (if isSeparator c then _ else _) = _
  rw [if_pos hc]
  rfl

/-- Characters that are no separators belong to the first piece. -/
theorem pieces_append (hw : ∀ c ∈ w, isSeparator c = false)
    (h : pieces isSeparator text = p :: ps) :
    pieces isSeparator (w ++ text) = (w ++ p) :: ps := by
  induction w with
  | nil => exact h
  | cons c w ih =>
    have hrest := ih fun c hc => hw c (List.mem_cons_of_mem _ hc)
    have hc : isSeparator c = false := hw c List.mem_cons_self
    show (if isSeparator c then _ else consFirst c (pieces isSeparator (w ++ text))) = _
    simp only [hc, Bool.false_eq_true, if_false, hrest]
    rfl

/-- The pieces of a text with a separator in it are those in front of it and those behind it. -/
theorem pieces_append_separator (hc : isSeparator c = true) :
    pieces isSeparator (w ++ c :: text) = pieces isSeparator w ++ pieces isSeparator text := by
  induction w with
  | nil => exact pieces_cons_of_separator hc
  | cons d w ih =>
    show (if isSeparator d then [] :: pieces isSeparator (w ++ c :: text)
      else consFirst d (pieces isSeparator (w ++ c :: text))) =
        (if isSeparator d then [] :: pieces isSeparator w
          else consFirst d (pieces isSeparator w)) ++ pieces isSeparator text
    rw [ih]
    split
    · rfl
    · obtain ⟨p, ps, hp⟩ := exists_pieces_eq_cons isSeparator w
      rw [hp]
      rfl

/-- A character that is no separator belongs to the first piece. -/
theorem pieces_cons (hc : isSeparator c = false) (h : pieces isSeparator text = p :: ps) :
    pieces isSeparator (c :: text) = (c :: p) :: ps :=
  pieces_append (w := [c]) (by simpa using hc) h

end

/-! ### Words of a line -/

variable {line : Nat} {text rest l w : List Char} {ls : List (List Char)} {c : Char}

theorem words_cons_of_isBlank (hc : isBlank c = true) : words (c :: l) = words l := by
  unfold words
  rw [pieces_cons_of_separator hc]
  rfl

/-- A word in front of a blank, or at the end of its line, is the first word of the line. -/
theorem words_append (hne : w ≠ []) (hw : ∀ c ∈ w, isBlank c = false)
    (hend : ∀ c ∈ l.head?, isBlank c = true) : words (w ++ l) = w :: words l := by
  have hkeep : (!w.isEmpty) = true := by simpa using hne
  cases l with
  | nil =>
    have hempty : pieces isBlank [] = [[]] := rfl
    unfold words
    rw [pieces_append hw hempty, List.append_nil, List.filter_cons, if_pos hkeep]
    rfl
  | cons c l =>
    have hc : isBlank c = true := hend c rfl
    unfold words
    rw [pieces_append hw (pieces_cons_of_separator hc), pieces_cons_of_separator hc,
      List.append_nil, List.filter_cons, if_pos hkeep]
    rfl

/-- The words on both sides of a blank. -/
theorem words_append_blank (hc : isBlank c = true) (l more : List Char) :
    words (l ++ c :: more) = words l ++ words more := by
  unfold words
  rw [pieces_append_separator hc, List.filter_append]

/-- A character that is no blank begins the first word. -/
theorem exists_words_eq_cons (hc : isBlank c = false) (l : List Char) :
    ∃ w ws, words (c :: l) = (c :: w) :: ws := by
  obtain ⟨p, ps, hpieces⟩ := exists_pieces_eq_cons isBlank l
  refine ⟨p, ps.filter (!·.isEmpty), ?_⟩
  unfold words
  rw [pieces_cons hc hpieces]
  rfl

/-- **Trimming** leaves a text that begins with the first character of the first word. -/
theorem head?_trim (l : List Char) : (trim l).head? = (words l).head?.bind List.head? := by
  induction l with
  | nil => rfl
  | cons c l ih =>
    by_cases hc : isBlank c = true
    · rw [words_cons_of_isBlank hc, ← ih]
      unfold trim
      rw [List.dropWhile_cons_of_pos hc]
    · obtain ⟨w, ws, hwords⟩ := exists_words_eq_cons (by simpa using hc) l
      have htrim : trim (c :: l) = (c :: l).rdropWhile isBlank := by
        unfold trim
        rw [List.dropWhile_cons_of_neg hc]
        rfl
      -- `c` is not trimmed from the end either.
      have hne : (c :: l).rdropWhile isBlank ≠ [] := fun heq =>
        hc (List.rdropWhile_eq_nil_iff.1 heq c List.mem_cons_self)
      obtain ⟨d, rest, hrest⟩ := List.exists_cons_of_ne_nil hne
      have hprefix : d :: rest <+: c :: l := hrest ▸ List.rdropWhile_prefix isBlank _
      rw [htrim, hrest, hwords, (List.cons_prefix_cons.1 hprefix).1]
      rfl

/-! ### Tokens, line by line -/

/-- The tokens of a text whose first line has this number, line by line. -/
def tokensFrom (line : Nat) (text : List Char) : List Token :=
  ((lines text).zipIdx line).flatMap fun (l, number) => (words l).map (⟨number, ·⟩)

theorem tokensFrom_eq (h : lines text = l :: ls) :
    tokensFrom line text = (words l).map (⟨line, ·⟩) ++
      (ls.zipIdx (line + 1)).flatMap fun (l, number) => (words l).map (⟨number, ·⟩) := by
  unfold tokensFrom
  rw [h, List.zipIdx_cons, List.flatMap_cons]

theorem tokensFrom_newline (line : Nat) (rest : List Char) :
    tokensFrom line ('\n' :: rest) = tokensFrom (line + 1) rest := by
  rw [tokensFrom_eq (pieces_cons_of_separator rfl)]
  rfl

theorem tokensFrom_blank (hc : isBlank c = true) (hne : c ≠ '\n') :
    tokensFrom line (c :: rest) = tokensFrom line rest := by
  obtain ⟨l, ls, hlines⟩ := exists_pieces_eq_cons (· == '\n') rest
  have hcons : lines (c :: rest) = (c :: l) :: ls := pieces_cons (by simpa using hne) hlines
  rw [tokensFrom_eq hcons, tokensFrom_eq hlines, words_cons_of_isBlank hc]

/-- A text without blanks stands on one line. -/
theorem newline_notMem_of_isBlank (hw : ∀ c ∈ w, isBlank c = false) : '\n' ∉ w := by
  intro hmem
  exact absurd (hw '\n' hmem) (by decide)

theorem beq_newline_eq_false (hl : '\n' ∉ l) : ∀ c ∈ l, (c == '\n') = false := by
  intro c hc
  rw [beq_eq_false_iff_ne]
  rintro rfl
  exact hl hc

/-- A text that begins with a blank has a first line that does, or one that is empty. -/
theorem isBlank_of_mem_head?_lines (hlines : lines rest = l :: ls)
    (hend : ∀ c ∈ rest.head?, isBlank c = true) : ∀ c ∈ l.head?, isBlank c = true := by
  cases rest with
  | nil =>
    cases hlines
    simp
  | cons d rest =>
    unfold lines at hlines
    by_cases hd : d = '\n'
    · subst hd
      rw [pieces_cons_of_separator rfl] at hlines
      cases hlines
      simp
    · obtain ⟨l', ls', hrest⟩ := exists_pieces_eq_cons (· == '\n') rest
      rw [pieces_cons (by simpa using hd) hrest] at hlines
      cases hlines
      intro c hc
      exact hend c hc

theorem tokensFrom_word (hne : w ≠ []) (hw : ∀ c ∈ w, isBlank c = false)
    (hend : ∀ c ∈ rest.head?, isBlank c = true) :
    tokensFrom line (w ++ rest) = ⟨line, w⟩ :: tokensFrom line rest := by
  obtain ⟨l, ls, hlines⟩ := exists_pieces_eq_cons (· == '\n') rest
  -- A word stays on one line, since a line feed is a blank.
  have hstay := beq_newline_eq_false (newline_notMem_of_isBlank hw)
  have happend : lines (w ++ rest) = (w ++ l) :: ls := pieces_append hstay hlines
  have hlend := isBlank_of_mem_head?_lines hlines hend
  rw [tokensFrom_eq happend, tokensFrom_eq hlines, words_append hne hw hlend, List.map_cons,
    List.cons_append]

/-- Whatever is tokenized from left to right is found line by line. -/
theorem Tokenized.eq_tokensFrom {ts : List Token} (h : Tokenized line text ts) :
    ts = tokensFrom line text := by
  induction h with
  | nil => rfl
  | newline _ ih => rw [tokensFrom_newline, ih]
  | blank hc hne _ ih => rw [tokensFrom_blank hc hne, ih]
  | word hne hw hend _ ih => rw [tokensFrom_word hne hw hend, ih]

/-- A character that is no blank begins a word, which ends where the next blank is. -/
theorem Tokenized.of_dropWhile {ts : List Token} (hc : isBlank c = false)
    (h : Tokenized line (rest.dropWhile (!isBlank ·)) ts) :
    Tokenized line (c :: rest) (⟨line, c :: rest.takeWhile (!isBlank ·)⟩ :: ts) := by
  have hword : ∀ d ∈ c :: rest.takeWhile (!isBlank ·), isBlank d = false := by
    intro d hd
    rcases List.mem_cons.1 hd with rfl | hd
    · exact hc
    · simpa using List.all_eq_true.1 List.all_takeWhile d hd
  have hend : ∀ d ∈ (rest.dropWhile (!isBlank ·)).head?, isBlank d = true := by
    intro d hd
    have hhead := List.head?_dropWhile_not (!isBlank ·) rest
    rw [hd] at hhead
    simpa using hhead
  have htokens := Tokenized.word (List.cons_ne_nil _ _) hword hend h
  rwa [List.cons_append, List.takeWhile_append_dropWhile] at htokens

/-- Every text is tokenized from left to right. -/
theorem exists_tokenized (line : Nat) (text : List Char) : ∃ ts, Tokenized line text ts := by
  -- A word is taken as a whole, so the induction is on the length.
  induction hn : text.length using Nat.strongRecOn generalizing line text with
  | ind n ih =>
    cases text with
    | nil => exact ⟨[], .nil⟩
    | cons c rest =>
      have hlt : rest.length < n := by
        rw [← hn]
        exact Nat.lt_succ_self _
      by_cases hc : isBlank c = true
      · by_cases hnew : c = '\n'
        · subst hnew
          obtain ⟨ts, hts⟩ := ih _ hlt (line + 1) rest rfl
          exact ⟨ts, .newline hts⟩
        · obtain ⟨ts, hts⟩ := ih _ hlt line rest rfl
          exact ⟨ts, .blank hc hnew hts⟩
      · have hshort : (rest.dropWhile (!isBlank ·)).length < n :=
          Nat.lt_of_le_of_lt (List.dropWhile_sublist _).length_le hlt
        obtain ⟨ts, hts⟩ := ih _ hshort line _ rfl
        exact ⟨_, .of_dropWhile (by simpa using hc) hts⟩

/-- **Tokens from left to right are the tokens line by line.** -/
theorem tokenized_iff {ts : List Token} : Tokenized 1 text ts ↔ ts = tokens text := by
  constructor
  · exact Tokenized.eq_tokensFrom
  · rintro rfl
    obtain ⟨ts, hts⟩ := exists_tokenized 1 text
    have heq : ts = tokens text := hts.eq_tokensFrom
    exact heq ▸ hts

/-! ### Texts without blanks -/

theorem dropWhile_isBlank (hw : ∀ c ∈ w, isBlank c = false) : w.dropWhile isBlank = w := by
  cases w with
  | nil => rfl
  | cons c w =>
    have hc : isBlank c = false := hw c List.mem_cons_self
    rw [List.dropWhile_cons, hc]
    rfl

/-- Nothing is trimmed from a text without blanks. -/
theorem trim_eq_self (hw : ∀ c ∈ w, isBlank c = false) : trim w = w := by
  have hreverse : ∀ c ∈ w.reverse, isBlank c = false := fun c hc => hw c (List.mem_reverse.1 hc)
  unfold trim
  rw [dropWhile_isBlank hw, dropWhile_isBlank hreverse, List.reverse_reverse]

/-! ### One word a line -/

/-- Lines that are written one after another are read back, and an empty line behind them. -/
theorem lines_flatMap {ls : List (List Char)} (hl : ∀ l ∈ ls, '\n' ∉ l) :
    lines (ls.flatMap (· ++ ['\n'])) = ls ++ [[]] := by
  induction ls with
  | nil => rfl
  | cons l ls ih =>
    have hstay := beq_newline_eq_false (hl l List.mem_cons_self)
    have hrest := ih fun l hl' => hl l (List.mem_cons_of_mem _ hl')
    unfold lines at hrest ⊢
    rw [List.flatMap_cons, List.append_assoc, List.singleton_append,
      pieces_append hstay (pieces_cons_of_separator rfl), hrest, List.append_nil]
    rfl

/-- Lines that are written behind a text that is empty or ends a line follow its lines. -/
theorem lines_append_flatMap {ls : List (List Char)} (htext : ∀ c ∈ text.getLast?, c = '\n')
    (hl : ∀ l ∈ ls, '\n' ∉ l) :
    lines (text ++ ls.flatMap (· ++ ['\n'])) = (lines text).dropLast ++ ls ++ [[]] := by
  rcases List.eq_nil_or_concat text with rfl | ⟨front, c, rfl⟩
  · exact lines_flatMap hl
  · obtain rfl : c = '\n' := htext c (by simp)
    have hlines : lines (front ++ ['\n']) = lines front ++ [[]] := pieces_append_separator rfl
    rw [List.concat_eq_append, hlines, List.dropLast_concat, List.append_assoc, List.append_assoc,
      ← lines_flatMap hl]
    exact pieces_append_separator rfl

/-- **Words that are written one a line are read back.** -/
theorem map_text_tokens_flatMap {ws : List (List Char)} (hne : ∀ w ∈ ws, w ≠ [])
    (hblank : ∀ w ∈ ws, ∀ c ∈ w, isBlank c = false) :
    (tokens (ws.flatMap (· ++ ['\n']))).map Token.text = ws := by
  have main : ∀ line, (tokensFrom line (ws.flatMap (· ++ ['\n']))).map Token.text = ws := by
    induction ws with
    | nil => intro line; rfl
    | cons w ws ih =>
      intro line
      have hrest := ih (fun w hw => hne w (List.mem_cons_of_mem _ hw))
        (fun w hw => hblank w (List.mem_cons_of_mem _ hw)) (line + 1)
      rw [List.flatMap_cons, List.append_assoc, List.singleton_append,
        tokensFrom_word (hne w List.mem_cons_self) (hblank w List.mem_cons_self)
          (by simp [isBlank_newline]), tokensFrom_newline, List.map_cons, hrest]
  exact main 1

end SparseGraph.Text
