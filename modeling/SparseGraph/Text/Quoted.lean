import SparseGraph.Text.Invisible

namespace SparseGraph.Text

/-!
# Quoted texts

Messages show a text from the input between double quotes, so that blanks at its ends and
characters that cannot be seen are told apart.

* `quoteChar` — how one character is written between the quotes;
* `quoted` — a text between double quotes.
-/

/-- The digits of `n` in base 16, in lower case. -/
def hexDigits (n : Nat) : List Char :=
  Nat.toDigits 16 n

/-- How `c` is written between the quotes: by itself, by a short escape, or by its code point if
    it shows nothing of its own. -/
def quoteChar (c : Char) : List Char :=
  if c = '"' then ['\\', '"']
  else if c = '\\' then ['\\', '\\']
  else if c = '\n' then ['\\', 'n']
  else if c = '\r' then ['\\', 'r']
  else if c = '\t' then ['\\', 't']
  else if c.toNat = 0 then ['\\', '0']
  else if isInvisible c then ['\\', 'u', '\x7b'] ++ hexDigits c.toNat ++ ['\x7d']
  else [c]

/-- The text between double quotes. -/
def quoted (text : List Char) : String :=
  String.ofList ('"' :: text.flatMap quoteChar ++ ['"'])

example : quoted ['a', '"', '\n'] = "\"a\\\"\\n\"" := by decide +kernel

end SparseGraph.Text
