import SparseGraph.Text.Blank

namespace SparseGraph.Text

/-!
# Lines and words

A text is read as its lines, and a line as its words. Both are cut by one function, `pieces`,
which drops the separators and keeps what stands between them.

* `pieces` — what stands between the characters that satisfy a test;
* `lines` — the pieces between line feeds;
* `words` — the non-empty pieces between blanks;
* `trim` — a text without the blanks at its two ends;
* `tokens` — the words of a text in order, each with the number of its line.
-/

/-- Put `c` in front of the first piece. -/
def consFirst (c : Char) : List (List Char) → List (List Char)
  | [] => [[c]]
  | w :: ws => (c :: w) :: ws

/-- What stands between the characters that satisfy `isSeparator`, empty pieces included: there is
    one piece more than there are separators. -/
def pieces (isSeparator : Char → Bool) (text : List Char) : List (List Char) :=
  text.foldr (fun c ps => if isSeparator c then [] :: ps else consFirst c ps) [[]]

/-- The lines of a text. A line feed ends a line; a carriage return before it is a blank of that
    line. -/
def lines (text : List Char) : List (List Char) :=
  pieces (· == '\n') text

/-- The words of a text: its longest runs of characters that are no blanks. -/
def words (text : List Char) : List (List Char) :=
  (pieces isBlank text).filter (!·.isEmpty)

/-- The text without the blanks at its two ends. -/
def trim (text : List Char) : List Char :=
  ((text.dropWhile isBlank).reverse.dropWhile isBlank).reverse

/-- A word and the line it stands on, the first line being line 1. -/
structure Token where
  line : Nat
  text : List Char
deriving DecidableEq, Repr

/-- The words of a text in order, each with the number of its line. -/
def tokens (text : List Char) : List Token :=
  ((lines text).zipIdx 1).flatMap fun (line, number) => (words line).map (⟨number, ·⟩)

example : words [' ', 'a', '\u000b', 'b', 'c'] = [['a'], ['b', 'c']] := by decide

example : tokens ['a', '\n', '\n', 'b'] = [⟨1, ['a']⟩, ⟨3, ['b']⟩] := by decide

end SparseGraph.Text
