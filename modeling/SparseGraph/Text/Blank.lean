namespace SparseGraph.Text

/-!
# Blank characters

The characters that separate words are those with the Unicode property `White_Space`: 25 code
points in ten ranges. The zero-width space U+200B, the byte order mark U+FEFF and the information
separators U+001C to U+001F are not among them.

* `isBlank` — whether a character separates words.
-/

/-- The code points with the property `White_Space`, as ascending inclusive ranges. -/
def blankRanges : List (Nat × Nat) :=
  [(0x9, 0xD), (0x20, 0x20), (0x85, 0x85), (0xA0, 0xA0), (0x1680, 0x1680), (0x2000, 0x200A),
    (0x2028, 0x2029), (0x202F, 0x202F), (0x205F, 0x205F), (0x3000, 0x3000)]

/-- Whether `c` is a blank, that is, separates words. -/
def isBlank (c : Char) : Bool :=
  blankRanges.any fun (first, last) => first ≤ c.toNat && c.toNat ≤ last

/-- A line feed is a blank. -/
theorem isBlank_newline : isBlank '\n' = true := by decide

end SparseGraph.Text
