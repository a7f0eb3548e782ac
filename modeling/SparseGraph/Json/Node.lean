namespace SparseGraph.Json

/-!
# The grammar of JSON

A JSON text is read in two layers: characters to lexemes, and lexemes to a tree. Both layers are
automata folded over their input, so reading ends by construction. The tree keeps numbers and
strings as they are written; what they denote is a matter for whoever uses the tree.

* `TextUnit` — a character of a string as it is written;
* `NumberText` — a number as it is written;
* `Lexeme`, `lexemes?` — the lexemes of a text;
* `Node`, `Node.read?` — the tree of a text.
-/

/-- A character of a string as it is written: by itself or a short escape, or as a 16-bit code. -/
inductive TextUnit where
  | char (c : Char)
  | code (n : Nat)
deriving DecidableEq, Repr

/-- A number as it is written: its sign, digits, digits after the point, and exponent. -/
structure NumberText where
  negative : Bool
  whole : List Nat
  fraction : List Nat
  /-- Whether the exponent is negative, and its digits. -/
  exponent : Option (Bool × List Nat)
deriving DecidableEq, Repr

/-- The lexemes: punctuation, strings, and words, which are literals or numbers. -/
inductive Lexeme where
  | openArray
  | closeArray
  | openObject
  | closeObject
  | comma
  | colon
  | text (units : List TextUnit)
  | word (chars : List Char)
deriving DecidableEq, Repr

/-! ### Characters to lexemes -/

/-- Whether `c` may stand between lexemes. -/
def isSpace (c : Char) : Bool :=
  c == ' ' || c == '\n' || c == '\t' || c == '\r'

/-- The lexeme that is the single character `c`. -/
def punctuation? : Char → Option Lexeme
  | '[' => some .openArray
  | ']' => some .closeArray
  | '\x7b' => some .openObject
  | '\x7d' => some .closeObject
  | ',' => some .comma
  | ':' => some .colon
  | _ => none

/-- The value of a digit in base 16. -/
def hexValue? (c : Char) : Option Nat :=
  if '0' ≤ c ∧ c ≤ '9' then some (c.toNat - '0'.toNat)
  else if 'a' ≤ c ∧ c ≤ 'f' then some (c.toNat - 'a'.toNat + 10)
  else if 'A' ≤ c ∧ c ≤ 'F' then some (c.toNat - 'A'.toNat + 10)
  else none

/-- The character that a backslash and `c` stand for. -/
def shortEscape? : Char → Option Char
  | '"' => some '"'
  | '\\' => some '\\'
  | '/' => some '/'
  | 'b' => some '\x08'
  | 'f' => some '\x0c'
  | 'n' => some '\n'
  | 'r' => some '\r'
  | 't' => some '\t'
  | _ => none

/-- Where the lexer stands. What it has read of a lexeme is held in reverse. -/
inductive LexerMode where
  | between
  | inWord (chars : List Char)
  | inText (units : List TextUnit)
  | escape (units : List TextUnit)
  /-- `count` digits of a 16-bit code with this value have been read. -/
  | code (units : List TextUnit) (count value : Nat)

/-- A lexer: where it stands and, in reverse, the lexemes that it has found. -/
structure Lexer where
  mode : LexerMode
  found : List Lexeme

/-- Read a character between two lexemes. -/
def Lexer.next (found : List Lexeme) (c : Char) : Lexer :=
  if isSpace c then ⟨.between, found⟩
  else
    match punctuation? c with
    | some mark => ⟨.between, mark :: found⟩
    | none => if c = '"' then ⟨.inText [], found⟩ else ⟨.inWord [c], found⟩

/-- Read one character. -/
def Lexer.step (l : Lexer) (c : Char) : Option Lexer :=
  match l.mode with
  | .between => some (Lexer.next l.found c)
  | .inWord chars =>
    -- The character that ends a word is read as if it stood alone.
    if isSpace c || (punctuation? c).isSome || c == '"' then
      some (Lexer.next (.word chars.reverse :: l.found) c)
    else some ⟨.inWord (c :: chars), l.found⟩
  | .inText units =>
    if c = '"' then some ⟨.between, .text units.reverse :: l.found⟩
    else if c = '\\' then some ⟨.escape units, l.found⟩
    else if c.toNat < 0x20 then none
    else some ⟨.inText (.char c :: units), l.found⟩
  | .escape units =>
    if c = 'u' then some ⟨.code units 0 0, l.found⟩
    else (shortEscape? c).map fun e => ⟨.inText (.char e :: units), l.found⟩
  | .code units count value =>
    (hexValue? c).map fun d =>
      if count = 3 then ⟨.inText (.code (16 * value + d) :: units), l.found⟩
      else ⟨.code units (count + 1) (16 * value + d), l.found⟩

/-- The lexemes found, unless a string is left open. -/
def Lexer.finish? (l : Lexer) : Option (List Lexeme) :=
  match l.mode with
  | .between => some l.found.reverse
  | .inWord chars => some (.word chars.reverse :: l.found).reverse
  | _ => none

/-- The lexemes of a text. -/
def lexemes? (text : List Char) : Option (List Lexeme) :=
  (text.foldlM Lexer.step ⟨.between, []⟩).bind Lexer.finish?

/-! ### Words -/

/-- Split off the digits at the front. -/
def spanDigits (cs : List Char) : List Nat × List Char :=
  ((cs.takeWhile Char.isDigit).map (fun c => c.toNat - '0'.toNat), cs.dropWhile Char.isDigit)

/-- The exponent at the end of a number: nothing, or an `e` with at least one digit. -/
def readExponent? : List Char → Option (Option (Bool × List Nat))
  | [] => some none
  | e :: cs =>
    if e = 'e' ∨ e = 'E' then
      let (negative, cs) :=
        match cs with
        | '-' :: cs => (true, cs)
        | '+' :: cs => (false, cs)
        | cs => (false, cs)
      match spanDigits cs with
      | (d :: ds, []) => some (some (negative, d :: ds))
      | _ => none
    else none

/-- A word as a number: no needless zero in front, and digits on both sides of a point. -/
def readNumberText? (word : List Char) : Option NumberText :=
  let (negative, cs) :=
    match word with
    | '-' :: cs => (true, cs)
    | cs => (false, cs)
  match spanDigits cs with
  | ([], _) => none
  | (0 :: _ :: _, _) => none
  | (whole, '.' :: cs) =>
    match spanDigits cs with
    | ([], _) => none
    | (fraction, cs) => (readExponent? cs).map (⟨negative, whole, fraction, ·⟩)
  | (whole, cs) => (readExponent? cs).map (⟨negative, whole, [], ·⟩)

/-! ### Lexemes to trees -/

/-- The tree of a JSON text. The members of an object stand in the order of the text. -/
inductive Node where
  | null
  | bool (b : Bool)
  | number (text : NumberText)
  | text (units : List TextUnit)
  | array (items : List Node)
  | object (members : List (List TextUnit × Node))

/-- The value that a word denotes. -/
def Node.ofWord? (word : List Char) : Option Node :=
  if word = ['n', 'u', 'l', 'l'] then some .null
  else if word = ['t', 'r', 'u', 'e'] then some (.bool true)
  else if word = ['f', 'a', 'l', 's', 'e'] then some (.bool false)
  else (readNumberText? word).map .number

/-- An open array or object around the value that is being read; what stands before that value is
    held in reverse. -/
inductive Frame where
  | array (items : List Node)
  | object (members : List (List TextUnit × Node)) (key : List TextUnit)

/-- What the reader has read so far and needs next. -/
inductive Reader where
  | needValue (outer : List Frame)
  | needItem (outer : List Frame)
  | needFirstKey (outer : List Frame)
  | needKey (members : List (List TextUnit × Node)) (outer : List Frame)
  | needColon (members : List (List TextUnit × Node)) (key : List TextUnit) (outer : List Frame)
  | afterItem (items : List Node) (outer : List Frame)
  | afterMember (members : List (List TextUnit × Node)) (outer : List Frame)
  | finished (value : Node)

/-- Put a complete value into what is open around it. -/
def Reader.accept (value : Node) : List Frame → Reader
  | [] => .finished value
  | .array items :: outer => .afterItem (value :: items) outer
  | .object members key :: outer => .afterMember ((key, value) :: members) outer

/-- Read the lexeme that a value begins with. -/
def Reader.beginValue (outer : List Frame) : Lexeme → Option Reader
  | .openArray => some (.needItem outer)
  | .openObject => some (.needFirstKey outer)
  | .text units => some (accept (.text units) outer)
  | .word chars => (Node.ofWord? chars).map (accept · outer)
  | _ => none

/-- Read one lexeme. -/
def Reader.step : Reader → Lexeme → Option Reader
  | .needValue outer, l => beginValue outer l
  | .needItem outer, .closeArray => some (accept (.array []) outer)
  | .needItem outer, l => beginValue (.array [] :: outer) l
  | .needFirstKey outer, .closeObject => some (accept (.object []) outer)
  | .needFirstKey outer, .text key => some (.needColon [] key outer)
  | .needKey members outer, .text key => some (.needColon members key outer)
  | .needColon members key outer, .colon => some (.needValue (.object members key :: outer))
  | .afterItem items outer, .comma => some (.needValue (.array items :: outer))
  | .afterItem items outer, .closeArray => some (accept (.array items.reverse) outer)
  | .afterMember members outer, .comma => some (.needKey members outer)
  | .afterMember members outer, .closeObject => some (accept (.object members.reverse) outer)
  | _, _ => none

/-- The value read, if it is complete. -/
def Reader.finish? : Reader → Option Node
  | .finished value => some value
  | _ => none

/-- The tree of a text that holds one JSON value and blanks around it. -/
def Node.read? (text : List Char) : Option Node := do
  let ls ← lexemes? text
  let r ← ls.foldlM Reader.step (.needValue [])
  r.finish?

end SparseGraph.Json
