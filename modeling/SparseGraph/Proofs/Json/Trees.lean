import Mathlib.Data.List.Forall2
import SparseGraph.Proofs.Json.Lexemes

namespace SparseGraph.Json

/-!
# Trees that are written

A text that is put together like a JSON value is read as a tree, whatever is open around it. Arrays
and objects are read alike: between two brackets stand parts with commas between them, and only what
a part is differs.

* `Reads`, `Writes` — lexemes, and a text on one line, that are read as a tree;
* `Writes.read?_eq` — this tree is read of the text;
* `Bracket`, `Bracket.Part` — the two kinds of brackets, and what may stand between them;
* `Bracket.writes` — a bracket around parts is one tree;
* `writes_word`, `writes_renderText`, `writes_renderArray`, `writes_renderObject` — what is written
  of each kind.
-/

/-- The lexemes are read as the tree, whatever is open around it. -/
def Reads (ls : List Lexeme) (node : Node) : Prop :=
  ∀ outer, ls.foldlM Reader.step (.needValue outer) = some (Reader.accept node outer)

/-- The text stands on one line and is read as the tree, wherever it stands. -/
def Writes (text : List Char) (node : Node) : Prop :=
  ∃ ls, Spells text ls ∧ Reads ls node

variable {text w : List Char} {ts : List (List Char)} {node : Node} {ls : List Lexeme}
  {l : Lexeme} {r r' : Reader} {outer : List Frame}

/-- Lexemes are read from where the one before them leads. -/
theorem foldlM_step_cons (h : r.step l = some r') :
    (l :: ls).foldlM Reader.step r = ls.foldlM Reader.step r' := by
  rw [List.foldlM_cons, h]
  rfl

/-- Lexemes are read from where those before them lead. -/
theorem foldlM_step_append {ls' : List Lexeme} (h : ls.foldlM Reader.step r = some r') :
    (ls ++ ls').foldlM Reader.step r = ls'.foldlM Reader.step r' := by
  rw [List.foldlM_append, h]
  rfl

/-- **What is written is read.** -/
theorem Writes.read?_eq (h : Writes text node) : Node.read? text = some node := by
  obtain ⟨ls, hspells, hreads⟩ := h
  unfold Node.read?
  rw [hspells.lexemes?_eq, Option.bind_eq_bind, Option.bind_some, hreads [], Option.bind_eq_bind,
    Option.bind_some]
  rfl

theorem Writes.newline_notMem (h : Writes text node) : '\n' ∉ text := by
  obtain ⟨ls, hspells, _⟩ := h
  exact hspells.oneLine

/-! ### Words and strings -/

/-- A word that denotes a value. -/
theorem writes_word (hne : w ≠ []) (hw : ∀ c ∈ w, endsWord c = false)
    (hnode : Node.ofWord? w = some node) : Writes w node := by
  refine ⟨[.word w], .word hne hw, fun outer => ?_⟩
  have hstep : Reader.step (.needValue outer) (.word w) = some (Reader.accept node outer) := by
    show (Node.ofWord? w).map (Reader.accept · outer) = _
    rw [hnode]
    rfl
  exact foldlM_step_cons hstep

/-- A string between its quotes. -/
theorem writes_renderText (s : String) : Writes (renderText s) (.text (unitsOf s)) :=
  ⟨_, spells_renderText s, fun _ => rfl⟩

/-! ### Brackets -/

/-- A kind of brackets: its two marks, what the reader needs behind each of its parts, and the tree
    that is made of the parts. -/
structure Bracket (α : Type) where
  openChar : Char
  closeChar : Char
  openMark : Lexeme
  closeMark : Lexeme
  openChar_is : punctuation? openChar = some openMark
  closeChar_is : punctuation? closeChar = some closeMark
  /-- Behind the opening mark. -/
  opened : List Frame → Reader
  /-- Where a part must come, behind those read so far, in reverse. -/
  before : List α → List Frame → Reader
  /-- Behind a part. -/
  after : List α → List Frame → Reader
  make : List α → Node
  step_open : ∀ outer, Reader.step (.needValue outer) openMark = some (opened outer)
  /-- The first part is read like the others. -/
  step_first : ∀ outer l r,
    Reader.step (before [] outer) l = some r → Reader.step (opened outer) l = some r
  step_comma : ∀ parts outer, Reader.step (after parts outer) .comma = some (before parts outer)
  step_close : ∀ parts outer,
    Reader.step (after parts outer) closeMark = some (Reader.accept (make parts.reverse) outer)
  step_empty : ∀ outer,
    Reader.step (opened outer) closeMark = some (Reader.accept (make []) outer)
  before_ne_after : ∀ parts parts' outer, before parts outer ≠ after parts' outer

namespace Bracket

variable {α : Type} {b : Bracket α} {a : α} {as : List α}

/-- The text is a part of such a bracket. -/
def Part (b : Bracket α) (text : List Char) (a : α) : Prop :=
  ∃ ls, Spells text ls ∧
    ∀ parts outer, ls.foldlM Reader.step (b.before parts outer) = some (b.after (a :: parts) outer)

/-- A text that begins with a comma ends a word, and so does the empty one. -/
theorem wordEnd_flatMap_comma (ts : List (List Char)) : WordEnd (ts.flatMap (',' :: ·)) := by
  cases ts with
  | nil =>
    intro c hc
    cases hc
  | cons t ts => exact wordEnd_cons rfl

/-- Parts behind the first one, each with a comma in front. -/
theorem exists_spells_flatMap (h : List.Forall₂ b.Part ts as) :
    ∃ ls, Spells (ts.flatMap (',' :: ·)) ls ∧ ∀ parts outer,
      ls.foldlM Reader.step (b.after parts outer) = some (b.after (as.reverse ++ parts) outer) := by
  -- Induction on the parts; those in front of them are kept in reverse, whatever they are.
  induction h with
  | nil => exact ⟨[], .nil, fun _ _ => rfl⟩
  | @cons t a ts as hpart _ ih =>
    obtain ⟨ls, hspells, hreads⟩ := hpart
    obtain ⟨rest, hrest, hreadsRest⟩ := ih
    refine ⟨.comma :: (ls ++ rest), ?_, fun parts outer => ?_⟩
    · rw [List.flatMap_cons]
      exact .mark rfl (hspells.append hrest (wordEnd_flatMap_comma ts))
    · rw [foldlM_step_cons (b.step_comma parts outer), foldlM_step_append (hreads parts outer),
        hreadsRest, List.reverse_cons, List.append_assoc, List.singleton_append]

/-- The first part is read behind the opening mark. -/
theorem foldlM_opened (h : ls.foldlM Reader.step (b.before [] outer) = some (b.after [a] outer)) :
    ls.foldlM Reader.step (b.opened outer) = some (b.after [a] outer) := by
  -- Only the first lexeme is read from another state, and it leads to the same one.
  cases ls with
  | nil => exact absurd (Option.some.inj h) (b.before_ne_after [] [a] outer)
  | cons l ls =>
    rw [List.foldlM_cons] at h ⊢
    obtain ⟨r, hr, hrest⟩ := Option.bind_eq_some_iff.1 h
    rw [b.step_first outer l r hr]
    exact hrest

/-- Texts with commas between them are the first one and the others behind commas. -/
theorem joinComma_cons (t : List Char) (ts : List (List Char)) :
    joinComma (t :: ts) = t ++ ts.flatMap (',' :: ·) := by
  induction ts generalizing t with
  | nil => exact (List.append_nil t).symm
  | cons t' ts ih =>
    show t ++ ',' :: joinComma (t' :: ts) = _
    rw [ih]
    rfl

/-- **A bracket around parts** with commas between them is one tree. -/
theorem writes (h : List.Forall₂ b.Part ts as) :
    Writes (b.openChar :: joinComma ts ++ [b.closeChar]) (b.make as) := by
  have hclose : Spells [b.closeChar] [b.closeMark] := .mark b.closeChar_is .nil
  cases h with
  | nil =>
    refine ⟨[b.openMark, b.closeMark], .mark b.openChar_is hclose, fun outer => ?_⟩
    rw [foldlM_step_cons (b.step_open outer), foldlM_step_cons (b.step_empty outer)]
    rfl
  | @cons t a ts as hpart hparts =>
    -- The first part has no comma in front of it, all others have.
    obtain ⟨ls, hspells, hreads⟩ := hpart
    obtain ⟨rest, hrest, hreadsRest⟩ := exists_spells_flatMap hparts
    refine ⟨b.openMark :: (ls ++ rest ++ [b.closeMark]), ?_, fun outer => ?_⟩
    · rw [joinComma_cons, List.cons_append]
      exact .mark b.openChar_is ((hspells.append hrest (wordEnd_flatMap_comma ts)).append hclose
        (wordEnd_cons b.closeChar_is))
    · rw [foldlM_step_cons (b.step_open outer), List.append_assoc,
        foldlM_step_append (foldlM_opened (hreads [] outer)),
        foldlM_step_append (hreadsRest [a] outer), foldlM_step_cons (b.step_close _ outer),
        List.reverse_append, List.reverse_reverse]
      rfl

/-- The brackets of an array, whose parts are values. -/
def array : Bracket Node where
  openChar := '['
  closeChar := ']'
  openMark := .openArray
  closeMark := .closeArray
  openChar_is := rfl
  closeChar_is := rfl
  opened := .needItem
  before items outer := .needValue (.array items :: outer)
  after := .afterItem
  make := .array
  step_open _ := rfl
  step_first := by
    rintro outer (_ | _ | _ | _ | _ | _ | _ | _) r h <;> first | exact h | cases h
  step_comma _ _ := rfl
  step_close _ _ := rfl
  step_empty _ := rfl
  before_ne_after _ _ _ := nofun

/-- The brackets of an object, whose parts are a string and a value with a colon between them. -/
def object : Bracket (List TextUnit × Node) where
  openChar := '\x7b'
  closeChar := '\x7d'
  openMark := .openObject
  closeMark := .closeObject
  openChar_is := rfl
  closeChar_is := rfl
  opened := .needFirstKey
  before := .needKey
  after := .afterMember
  make := .object
  step_open _ := rfl
  step_first := by
    rintro outer (_ | _ | _ | _ | _ | _ | _ | _) r h <;> first | exact h | cases h
  step_comma _ _ := rfl
  step_close _ _ := rfl
  step_empty _ := rfl
  before_ne_after _ _ _ := nofun

/-- A value is a part of an array. -/
theorem part_array (h : Writes text node) : array.Part text node := by
  obtain ⟨ls, hspells, hreads⟩ := h
  exact ⟨ls, hspells, fun items outer => hreads (.array items :: outer)⟩

/-- A name and a value are a part of an object. -/
theorem part_object (name : String) (h : Writes text node) :
    object.Part (renderText name ++ ':' :: text) (unitsOf name, node) := by
  obtain ⟨ls, hspells, hreads⟩ := h
  refine ⟨[.text (unitsOf name)] ++ .colon :: ls,
    (spells_renderText name).append (.mark rfl hspells) (wordEnd_cons rfl), fun members outer => ?_⟩
  exact hreads (.object members (unitsOf name) :: outer)

end Bracket

/-! ### Arrays and objects -/

/-- The array of what is written. -/
theorem writes_renderArray {nodes : List Node} (h : List.Forall₂ Writes ts nodes) :
    Writes (renderArray ts) (.array nodes) :=
  Bracket.array.writes (h.imp fun _ _ => Bracket.part_array)

/-- Members of an object as they are read, by the names under which they were written. -/
def namedNodes (nodes : List (String × Node)) : List (List TextUnit × Node) :=
  nodes.map fun (name, node) => (unitsOf name, node)

/-- The object of what is written under names. -/
theorem writes_renderObject {members : List (String × List Char)} {nodes : List (String × Node)}
    (h : List.Forall₂ (fun m n => n.1 = m.1 ∧ Writes m.2 n.2) members nodes) :
    Writes (renderObject members) (.object (namedNodes nodes)) := by
  refine Bracket.object.writes ?_
  unfold namedNodes
  rw [List.forall₂_map_left_iff, List.forall₂_map_right_iff]
  refine h.imp fun m n hmember => ?_
  obtain ⟨name, text⟩ := m
  obtain ⟨name, node⟩ := n
  obtain ⟨rfl, hwrites⟩ := hmember
  exact Bracket.part_object name hwrites

end SparseGraph.Json
