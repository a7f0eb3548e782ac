import SparseGraph.Proofs.Json.Numbers
import SparseGraph.Proofs.NameMap

namespace SparseGraph.Json

/-!
# Values that are written

A value is read as itself if its floating point numbers are and if it is not too deep.

* `Keeps` — the text of a value is read as something;
* `Value.Readable` — the values that are read as themselves, by how deep they may be;
* `exists_writes_object`, `exists_writes_array` — what is written of an object and of an array, by
  their parts;
* `Value.Readable.keeps` — such a value is read as itself.
-/

/-- The text of the value stands on one line, and of the tree that is read there `read` makes
    `result`. -/
def Keeps {α : Type} (read : Node → Option α) (v : Value) (result : α) : Prop :=
  ∃ node, Writes v.render node ∧ read node = some result

/-- Values that are read as themselves where at most `levels` arrays and objects may stand in one
    another: numbers are integers of 64 bits, or doubles whose text is read as them, and the names
    of an object are in order. -/
inductive Value.Readable : Nat → Value → Prop
  | null {levels : Nat} : Readable levels .null
  | bool {levels : Nat} (b : Bool) : Readable levels (.bool b)
  | integer {levels : Nat} {i : Int} (hlow : -(lowestMagnitude : Int) ≤ i)
      (hhigh : i ≤ (Text.maxLong : Int)) : Readable levels (.number (.integer i))
  | double {levels : Nat} {x : Float} (h : ReadsBack x) : Readable levels (.number (.double x))
  | text {levels : Nat} (s : String) : Readable levels (.text s)
  | array {levels : Nat} {items : List Value} (h : ∀ v ∈ items, Readable levels v) :
      Readable (levels + 1) (.array items)
  | object {levels : Nat} {members : List (String × Value)}
      (hsorted : (members.map Prod.fst).Pairwise (· < ·)) (h : ∀ m ∈ members, Readable levels m.2) :
      Readable (levels + 1) (.object members)

variable {levels : Nat} {v : Value} {n m : Number} {items : List Value}
  {members : List (String × Value)}

/-! ### Parts -/

theorem renderItems_eq_map (items : List Value) : renderItems items = items.map Value.render := by
  induction items with
  | nil => rfl
  | cons v items ih => rw [renderItems, ih, List.map_cons]

theorem renderMembers_eq_map (members : List (String × Value)) :
    renderMembers members = members.map fun (name, v) => (name, v.render) := by
  induction members with
  | nil => rfl
  | cons m members ih =>
    obtain ⟨name, v⟩ := m
    rw [renderMembers, ih, List.map_cons]

/-- What there is for each item of a list there is for all of them. -/
theorem exists_forall₂ {α β : Type} {R : α → β → Prop} {as : List α} (h : ∀ a ∈ as, ∃ b, R a b) :
    ∃ bs, List.Forall₂ R as bs := by
  induction as with
  | nil => exact ⟨[], .nil⟩
  | cons a as ih =>
    obtain ⟨b, hb⟩ := h a List.mem_cons_self
    obtain ⟨bs, hbs⟩ := ih fun a ha => h a (List.mem_cons_of_mem _ ha)
    exact ⟨b :: bs, .cons hb hbs⟩

/-- An object is written as the members that stand under its names. -/
theorem writes_object {nodes : List (String × Node)}
    (h : List.Forall₂ (fun m n => n.1 = m.1 ∧ Writes m.2.render n.2) members nodes) :
    Writes (Value.object members).render (.object (namedNodes nodes)) := by
  show Writes (renderObject (renderMembers members)) _
  rw [renderMembers_eq_map]
  exact writes_renderObject (List.forall₂_map_left_iff.2 h)

/-- **An object** is read by its members. -/
theorem exists_writes_object {β : Type} {entries : List β} {P : β → Node → Prop}
    (member : β → String × Value)
    (h : ∀ e ∈ entries, ∃ node, Writes (member e).2.render node ∧ P e node) :
    ∃ nodes : List (String × Node),
      Writes (Value.object (entries.map member)).render (.object (namedNodes nodes)) ∧
        List.Forall₂ (fun e n => n.1 = (member e).1 ∧ P e n.2) entries nodes := by
  have hnamed : ∀ e ∈ entries, ∃ n : String × Node,
      n.1 = (member e).1 ∧ Writes (member e).2.render n.2 ∧ P e n.2 := by
    intro e he
    obtain ⟨node, hnode⟩ := h e he
    exact ⟨((member e).1, node), rfl, hnode⟩
  obtain ⟨nodes, hnodes⟩ := exists_forall₂ hnamed
  refine ⟨nodes, writes_object (List.forall₂_map_left_iff.2 ?_), ?_⟩
  · exact hnodes.imp fun e n hmember => ⟨hmember.1, hmember.2.1⟩
  · exact hnodes.imp fun e n hmember => ⟨hmember.1, hmember.2.2⟩

/-- **An array** is read as its items. -/
theorem exists_writes_array {P : Value → Node → Prop}
    (h : ∀ v ∈ items, ∃ node, Writes v.render node ∧ P v node) :
    ∃ nodes, Writes (Value.array items).render (.array nodes) ∧ List.Forall₂ P items nodes := by
  obtain ⟨nodes, hnodes⟩ := exists_forall₂ h
  refine ⟨nodes, ?_, hnodes.imp fun v n hitem => hitem.2⟩
  show Writes (renderArray (renderItems items)) _
  rw [renderItems_eq_map]
  exact writes_renderArray (List.forall₂_map_left_iff.2 (hnodes.imp fun v n hitem => hitem.1))

theorem valuesOfNodes?_eq {nodes : List Node}
    (h : List.Forall₂ (fun v node => Value.ofNode? levels node = some v) items nodes) :
    valuesOfNodes? levels nodes = some items := by
  induction h with
  | nil => rfl
  | cons hv _ ih =>
    rw [valuesOfNodes?, hv, ih]
    rfl

theorem membersOfNodes?_eq {nodes : List (String × Node)}
    (h : List.Forall₂ (fun m n => n.1 = m.1 ∧ Value.ofNode? levels n.2 = some m.2) members nodes) :
    membersOfNodes? levels (namedNodes nodes) = some members := by
  induction h with
  | nil => rfl
  | @cons m n members nodes hmember _ ih =>
    obtain ⟨name, v⟩ := m
    obtain ⟨name, node⟩ := n
    obtain ⟨rfl, hv⟩ := hmember
    show membersOfNodes? levels ((unitsOf name, node) :: namedNodes nodes) = _
    rw [membersOfNodes?, decodeText?_unitsOf, hv, ih]
    rfl

/-- **The members of an object,** given by the name, the value that is written and the one that is
    read of it. -/
theorem exists_writes_members {fields : List (String × Value × Value)}
    (h : ∀ f ∈ fields, Keeps (Value.ofNode? levels) f.2.1 f.2.2) :
    ∃ nodes : List (String × Node),
      Writes (Value.object (fields.map fun f => (f.1, f.2.1))).render
        (.object (namedNodes nodes)) ∧
      membersOfNodes? levels (namedNodes nodes) = some (fields.map fun f => (f.1, f.2.2)) := by
  obtain ⟨nodes, hwrites, hnodes⟩ :=
    exists_writes_object (fun f : String × Value × Value => (f.1, f.2.1)) h
  exact ⟨nodes, hwrites, membersOfNodes?_eq (List.forall₂_map_left_iff.2 hnodes)⟩

/-! ### Values -/

theorem writes_null : Writes Value.null.render .null := by
  refine writes_word (List.cons_ne_nil _ _) ?_ rfl
  simp [Value.render, endsWord, isSpace, punctuation?]

theorem writes_bool (b : Bool) : Writes (Value.bool b).render (.bool b) := by
  cases b
  all_goals
    refine writes_word (List.cons_ne_nil _ _) ?_ rfl
    simp [Value.render, endsWord, isSpace, punctuation?]

/-- A number is read as what is read of its text. -/
theorem keeps_number (h : n.readBack? = some m) :
    Keeps (Value.ofNode? levels) (.number n) (.number m) := by
  obtain ⟨t, hwrites, ht⟩ := exists_writes_render h
  refine ⟨.number t, hwrites, ?_⟩
  rw [Value.ofNode?, ht]
  rfl

theorem keeps_text (s : String) : Keeps (Value.ofNode? levels) (.text s) (.text s) := by
  refine ⟨_, writes_renderText s, ?_⟩
  rw [Value.ofNode?, decodeText?_unitsOf]
  rfl

/-- **A readable value is read as itself.** -/
theorem Value.Readable.keeps (h : v.Readable levels) : Keeps (Value.ofNode? levels) v v := by
  -- The parts of an array or an object may be one level less deep than itself.
  induction h with
  | null => exact ⟨.null, writes_null, rfl⟩
  | bool b => exact ⟨.bool b, writes_bool b, rfl⟩
  | integer hlow hhigh => exact keeps_number (readBack?_integer hlow hhigh)
  | double h => exact keeps_number h
  | text s => exact keeps_text s
  | array _ ih =>
    obtain ⟨nodes, hwrites, hnodes⟩ := exists_writes_array ih
    refine ⟨_, hwrites, ?_⟩
    rw [Value.ofNode?, valuesOfNodes?_eq hnodes]
    rfl
  | object hsorted _ ih =>
    obtain ⟨nodes, hwrites, hnodes⟩ := exists_writes_object id ih
    rw [List.map_id] at hwrites
    refine ⟨_, hwrites, ?_⟩
    -- The members are put in again one by one, and stay in their order.
    rw [Value.ofNode?, membersOfNodes?_eq hnodes, Option.map_some, foldl_insertName hsorted,
      List.nil_append]

end SparseGraph.Json
