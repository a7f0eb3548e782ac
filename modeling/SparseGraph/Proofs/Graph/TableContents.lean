import SparseGraph.Cell
import SparseGraph.Graph.Table
import SparseGraph.Proofs.Fallible
import SparseGraph.Proofs.Graph.Tiling
import SparseGraph.Proofs.Text.Tokens

namespace SparseGraph.Graph

open Text (Denotes maxLong maxWord readNumeral trim)

/-!
# What tables say

What the metadata, the columns and the rows of a table say, and that it is what the readers find. The
graph of a table is told by it alone.

* `Declares` — what metadata declares;
* `Batch.Holds`, `Batch.HasEdges` — what columns and rows hold;
* `Table.declared_eq_ok_iff`, `Batch.edges_eq_ok_iff` — the readers find what is said;
* `Table.edges_of_batches` — the edges of a table are those of its batches;
* `ofDeclared_eq_ok_iff`, `ofTable_eq_ok_iff` — the graph by what is declared and the edges.
-/

variable {b : Batch} {t : Table} {metadata : List (String × Option String)} {name : String}
  {numNodes numEdges : Option Nat} {edges : List Edge} {g : Graph}

/-! ### What is declared -/

/-- The text under a key: that of the first entry of this name. -/
def textUnder? (metadata : List (String × Option String)) (key : String) : Option String :=
  (metadata.find? (·.1 == key)).bind Prod.snd

/-- What metadata declares: nothing, or a number that a word can hold, by a numeral between blanks. -/
inductive Declares (metadata : List (String × Option String)) (which : Declaration) : Option Nat → Prop
  | nothing (htext : textUnder? metadata which.key = none) : Declares metadata which none
  | number {text : String} {n : Nat} (htext : textUnder? metadata which.key = some text)
      (hn : Denotes (trim text.toList) n) (hle : n ≤ maxWord) : Declares metadata which (some n)

/-- **What is declared is read.** -/
theorem Table.declared_eq_ok_iff {which : Declaration} {count : Option Nat} :
    t.declared which = .ok count ↔ Declares t.metadata which count := by
  -- Numerals are read with 64 bits, of which a declared number may only use 32.
  have hlong : maxWord ≤ maxLong := by decide
  unfold declared
  constructor
  · intro h
    split at h
    next htext =>
      cases h
      exact .nothing htext
    next text htext =>
      split at h
      · cases h
      next n hread =>
        split at h
        · cases h
        next hle =>
          cases h
          exact .number htext (Text.readNumeral_eq_ok_iff.1 hread).1 (Nat.le_of_not_lt hle)
  · rintro (htext | ⟨htext, hn, hle⟩)
    · rw [show (t.metadata.find? (·.1 == which.key)).bind Prod.snd = none from htext]
    · rw [show (t.metadata.find? (·.1 == which.key)).bind Prod.snd = some _ from htext]
      dsimp only
      rw [Text.readNumeral_eq_ok_iff.2 ⟨hn, Nat.le_trans hle hlong⟩]
      dsimp only
      rw [if_neg (Nat.not_lt.2 hle)]

/-- One number is declared, or none. -/
theorem Declares.unique {which : Declaration} {count count' : Option Nat}
    (h : Declares metadata which count) (h' : Declares metadata which count') : count = count' := by
  have hread := Table.declared_eq_ok_iff (t := ⟨metadata, []⟩).2 h
  rw [Table.declared_eq_ok_iff.2 h'] at hread
  exact (Except.ok.inj hread).symm

/-- A word can hold what is declared. -/
theorem Declares.le_maxWord {which : Declaration} {count : Option Nat}
    (h : Declares metadata which count) : ∀ n ∈ count, n ≤ maxWord := by
  cases h with
  | nothing => simp
  | number _ _ hle => exact fun k hk => Option.some.inj hk ▸ hle

/-! ### Columns -/

/-- Edges taken apart into columns and put together again. -/
theorem zipEdges_map (edges : List Edge) :
    zipEdges (edges.map Edge.source) (edges.map Edge.target) (edges.map Edge.weight) = edges := by
  induction edges with
  | nil => rfl
  | cons e edges ih => rw [List.map_cons, List.map_cons, List.map_cons, zipEdges, ih]

/-- The first column of this name holds these words. -/
def Batch.Holds (b : Batch) (name : String) (values : List UInt32) : Prop :=
  ∃ c, b.columns.find? (·.name == name) = some c ∧ c.data = .words values

/-- The rows are these edges. -/
structure Batch.HasEdges (b : Batch) (edges : List Edge) : Prop where
  sources : b.Holds "source" (edges.map Edge.source)
  targets : b.Holds "target" (edges.map Edge.target)
  weights : b.Holds "weight" (edges.map Edge.weight)

namespace Batch

theorem words_eq_ok_iff {values : List UInt32} : b.words name = .ok values ↔ b.Holds name values := by
  unfold words Holds
  split
  next hfind => simp [hfind]
  next hfind => simp [hfind]
  next hfind => simp [hfind]

/-- A name stands for one column. -/
theorem Holds.unique {values values' : List UInt32} (h : b.Holds name values)
    (h' : b.Holds name values') : values = values' := by
  rw [← words_eq_ok_iff] at h h'
  rw [h] at h'
  exact Except.ok.inj h'

/-- A column has a word for each row of its batch. -/
theorem length_words {values : List UInt32} (h : b.words name = .ok values) :
    values.length = b.rows := by
  unfold words at h
  split at h
  · cases h
  next found =>
    cases h
    exact b.size_eq _ (List.mem_of_find?_eq_some found)
  · cases h

/-- Columns of one length are those of the edges they are put together to. -/
private theorem map_zipEdges {ss ts ws : List UInt32} (ht : ts.length = ss.length)
    (hw : ws.length = ss.length) :
    (zipEdges ss ts ws).map Edge.source = ss ∧ (zipEdges ss ts ws).map Edge.target = ts ∧
      (zipEdges ss ts ws).map Edge.weight = ws := by
  induction ss generalizing ts ws with
  | nil =>
    rw [List.eq_nil_of_length_eq_zero ht, List.eq_nil_of_length_eq_zero hw]
    exact ⟨rfl, rfl, rfl⟩
  | cons s ss ih =>
    obtain ⟨t, ts, rfl⟩ := List.exists_cons_of_length_eq_add_one ht
    obtain ⟨w, ws, rfl⟩ := List.exists_cons_of_length_eq_add_one hw
    obtain ⟨hs, ht, hw⟩ := ih (Nat.succ.inj ht) (Nat.succ.inj hw)
    rw [zipEdges, List.map_cons, List.map_cons, List.map_cons, hs, ht, hw]
    exact ⟨rfl, rfl, rfl⟩

/-- Three columns of words are edges. -/
theorem hasEdges_of_words {ss ts ws : List UInt32} (hs : b.words "source" = .ok ss)
    (ht : b.words "target" = .ok ts) (hw : b.words "weight" = .ok ws) :
    b.HasEdges (zipEdges ss ts ws) := by
  have hlength := length_words hs
  obtain ⟨hsources, htargets, hweights⟩ :=
    map_zipEdges ((length_words ht).trans hlength.symm) ((length_words hw).trans hlength.symm)
  constructor
  · rw [hsources, ← words_eq_ok_iff, hs]
  · rw [htargets, ← words_eq_ok_iff, ht]
  · rw [hweights, ← words_eq_ok_iff, hw]

/-- The edges of a batch with the three columns. -/
theorem edges_of_words {sources targets weights : List UInt32}
    (hs : b.words "source" = .ok sources) (ht : b.words "target" = .ok targets)
    (hw : b.words "weight" = .ok weights) :
    b.edges = .ok (zipEdges sources targets weights) := by
  unfold edges
  rw [hs, ht, hw]
  rfl

/-- **The edges of a batch are read.** -/
theorem edges_eq_ok_iff : b.edges = .ok edges ↔ b.HasEdges edges := by
  constructor
  · intro h
    obtain ⟨ss, hs, h⟩ := bind_eq_ok_iff.1 h
    obtain ⟨ts, ht, h⟩ := bind_eq_ok_iff.1 h
    obtain ⟨ws, hw, h⟩ := bind_eq_ok_iff.1 h
    cases h
    exact hasEdges_of_words hs ht hw
  · rintro ⟨hs, ht, hw⟩
    rw [edges_of_words (words_eq_ok_iff.2 hs) (words_eq_ok_iff.2 ht) (words_eq_ok_iff.2 hw),
      zipEdges_map]

/-- Rows are edges if the three columns hold words. -/
theorem exists_hasEdges_iff :
    (∃ edges, b.HasEdges edges) ↔
      ∀ name ∈ ["source", "target", "weight"], ∃ values, b.Holds name values := by
  simp only [List.forall_mem_cons, List.not_mem_nil, false_implies, implies_true, and_true]
  constructor
  · rintro ⟨edges, hs, ht, hw⟩
    exact ⟨⟨_, hs⟩, ⟨_, ht⟩, ⟨_, hw⟩⟩
  · rintro ⟨⟨ss, hs⟩, ⟨ts, ht⟩, ⟨ws, hw⟩⟩
    exact ⟨_, hasEdges_of_words (words_eq_ok_iff.2 hs) (words_eq_ok_iff.2 ht) (words_eq_ok_iff.2 hw)⟩

/-- There is an edge in each row. -/
theorem HasEdges.length_eq (h : b.HasEdges edges) : edges.length = b.rows := by
  rw [← length_words (words_eq_ok_iff.2 h.sources), List.length_map]

/-- Rows are the same edges whoever reads them. -/
theorem HasEdges.unique {edges' : List Edge} (h : b.HasEdges edges) (h' : b.HasEdges edges') :
    edges = edges' := by
  rw [← edges_eq_ok_iff] at h h'
  rw [h] at h'
  exact Except.ok.inj h'

/-- The ends of the edges are what stands in the first two columns. -/
theorem HasEdges.forall_ends_iff (h : b.HasEdges edges) {P : UInt32 → Prop} :
    (∀ name ∈ ["source", "target"], ∀ values, b.Holds name values → ∀ id ∈ values, P id) ↔
      ∀ e ∈ edges, P e.source ∧ P e.target := by
  simp only [List.forall_mem_cons, List.not_mem_nil, false_implies, implies_true, and_true]
  constructor
  · rintro ⟨hs, ht⟩ e he
    exact ⟨hs _ h.sources _ (List.mem_map_of_mem he), ht _ h.targets _ (List.mem_map_of_mem he)⟩
  · intro hends
    constructor
    · intro values hvalues id hid
      rw [hvalues.unique h.sources] at hid
      obtain ⟨e, he, rfl⟩ := List.mem_map.1 hid
      exact (hends e he).1
    · intro values hvalues id hid
      rw [hvalues.unique h.targets] at hid
      obtain ⟨e, he, rfl⟩ := List.mem_map.1 hid
      exact (hends e he).2

end Batch

/-! ### Batches -/

/-- **Batches follow one another:** the edges of a table are those of its batches in order. -/
theorem Table.edges_of_batches {parts : List (List Edge)}
    (h : List.Forall₂ (fun b es => Batch.edges b = .ok es) t.batches parts) :
    t.edges = .ok parts.flatten := by
  unfold Table.edges
  rw [mapM_eq_ok_iff.2 h]
  rfl

/-- A table has an edge in each row. -/
theorem Table.length_edges (h : t.edges = .ok edges) :
    edges.length = total (t.batches.map Batch.rows) := by
  obtain ⟨parts, hparts, hflat⟩ := bind_eq_ok_iff.1 h
  cases hflat
  have hall := mapM_eq_ok_iff.1 hparts
  -- The induction is on the batches alone, with the edges of each.
  clear h hparts
  generalize t.batches = batches at hall
  induction hall with
  | nil => rfl
  | cons hb _ ih =>
    rw [List.flatten_cons, List.length_append, ih, List.map_cons, total,
      (Batch.edges_eq_ok_iff.1 hb).length_eq]

/-! ### The graph -/

/-- The vertices of edges are told or found: `n` vertices if this number is declared, else those that
    the edges need. -/
def graphOf (numNodes : Option Nat) (edges : List Edge) : Except GraphError Graph :=
  numNodes.elim (ofEdgeList edges) fun n => ofEdges n edges

theorem ofDeclared_eq_ok_iff :
    ofDeclared numNodes numEdges edges = .ok g ↔
      (∀ m ∈ numEdges, m = edges.length) ∧ (∀ n ∈ numNodes, nodesNeeded edges ≤ n) ∧
        graphOf numNodes edges = .ok g := by
  have hcount : numEdges.any (· ≠ edges.length) ↔ ¬ ∀ m ∈ numEdges, m = edges.length := by
    cases numEdges <;> simp
  unfold ofDeclared
  split
  next hne => exact iff_of_false (by simp) fun h => hcount.1 hne h.1
  next heq =>
    rw [hcount, not_not] at heq
    rw [and_iff_right heq]
    cases numNodes with
    | none => simp [graphOf]
    | some n =>
      dsimp only [graphOf, Option.elim]
      split
      next hlt => exact iff_of_false (by simp) fun h => Nat.not_le.2 hlt (h.1 n rfl)
      next hle => simp [Nat.le_of_not_lt hle]

/-- The graph of a table, by what it declares and its edges. -/
theorem ofTable_eq_ok_iff :
    ofTable t = .ok g ↔
      ∃ numNodes numEdges edges, Declares t.metadata .numNodes numNodes ∧
        Declares t.metadata .numEdges numEdges ∧ t.edges = .ok edges ∧
        ofDeclared numNodes numEdges edges = .ok g := by
  simp only [ofTable, bind_eq_ok_iff, mapError_eq_ok_iff, Table.declared_eq_ok_iff, exists_and_left]

end SparseGraph.Graph
