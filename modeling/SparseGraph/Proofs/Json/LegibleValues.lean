import SparseGraph.Proofs.Json.FloatTexts
import SparseGraph.Proofs.Json.Values

namespace SparseGraph.Json

/-!
# Values that can be read

A value that is written is read as some value, whatever floating point numbers it holds: one that is
not finite is written, and read, as `null`.

* `Value.Legible` — the values that can be read, by how deep they may be;
* `Number.render_of_not_isFinite`, `exists_writes_float` — what is written and read of a floating
  point number;
* `Value.Legible.exists_writes` — a value is read if and only if it is not too deep.
-/

variable {levels : Nat} {v : Value} {n : Number}

/-! ### Values -/

/-- Values that can be read where at most `levels` arrays and objects may stand in one another,
    though not always as themselves: integers are of 64 bits. -/
inductive Value.Legible : Nat → Value → Prop
  | null {levels : Nat} : Legible levels .null
  | bool {levels : Nat} (b : Bool) : Legible levels (.bool b)
  | integer {levels : Nat} {i : Int} (hlow : -(lowestMagnitude : Int) ≤ i)
      (hhigh : i ≤ (Text.maxLong : Int)) : Legible levels (.number (.integer i))
  | double {levels : Nat} (x : Float) : Legible levels (.number (.double x))
  | single {levels : Nat} (x : Float32) : Legible levels (.number (.single x))
  | text {levels : Nat} (s : String) : Legible levels (.text s)
  | array {levels : Nat} {items : List Value} (h : ∀ v ∈ items, Legible levels v) :
      Legible (levels + 1) (.array items)
  | object {levels : Nat} {members : List (String × Value)} (h : ∀ m ∈ members, Legible levels m.2) :
      Legible (levels + 1) (.object members)

theorem Value.legible_array_iff {items : List Value} :
    Legible levels (.array items) ↔ ∃ below, levels = below + 1 ∧ ∀ v ∈ items, Legible below v := by
  constructor
  · intro h
    cases h with
    | array h => exact ⟨_, rfl, h⟩
  · rintro ⟨below, rfl, h⟩
    exact .array h

theorem Value.legible_object_iff {members : List (String × Value)} :
    Legible levels (.object members) ↔
      ∃ below, levels = below + 1 ∧ ∀ m ∈ members, Legible below m.2 := by
  constructor
  · intro h
    cases h with
    | object h => exact ⟨_, rfl, h⟩
  · rintro ⟨below, rfl, h⟩
    exact .object h

/-- Whether a number is written as a number, and not as `null`. -/
def Number.isFinite : Number → Bool
  | .integer _ => true
  | .double x => x.isFinite
  | .single x => x.isFinite

theorem Number.render_of_not_isFinite (h : n.isFinite = false) : n.render = Value.null.render := by
  cases n with
  | integer i => cases h
  | double x =>
    have hnot : ¬ (Decimal.Binary.ofDouble x).IsFinite := by
      rw [Decimal.isFinite_ofDouble_iff, Bool.not_eq_true]
      exact h
    exact renderBinary_of_not_isFinite hnot _
  | single x =>
    have hnot : ¬ (Decimal.Binary.ofSingle x).IsFinite := by
      rw [Decimal.isFinite_ofSingle_iff, Bool.not_eq_true]
      exact h
    exact renderBinary_of_not_isFinite hnot _

/-- **A floating point value** is read as a number if it is finite, and as `null` if not. -/
theorem exists_writes_float (hread : n.readBack?.isSome = true ↔ n.isFinite = true) :
    ∃ node v, Writes (Value.number n).render node ∧
      (∀ levels, Value.ofNode? levels node = some v) ∧
      ((∃ m, v = .number m) ↔ n.isFinite = true) := by
  cases hfinite : n.isFinite with
  | true =>
    obtain ⟨m, hm⟩ := Option.isSome_iff_exists.1 (hread.2 hfinite)
    obtain ⟨t, hwrites, ht⟩ := exists_writes_render hm
    refine ⟨.number t, .number m, hwrites, fun levels => ?_, iff_of_true ⟨m, rfl⟩ rfl⟩
    rw [Value.ofNode?, ht]
    rfl
  | false =>
    refine ⟨.null, .null, ?_, fun _ => rfl, iff_of_false (by simp) Bool.false_ne_true⟩
    show Writes n.render .null
    rw [Number.render_of_not_isFinite hfinite]
    exact writes_null

theorem isSome_valuesOfNodes?_iff {P : Value → Prop} {items : List Value} {nodes : List Node}
    (h : List.Forall₂ (fun v node => (Value.ofNode? levels node).isSome = true ↔ P v) items nodes) :
    (valuesOfNodes? levels nodes).isSome = true ↔ ∀ v ∈ items, P v := by
  induction h with
  | nil => exact iff_of_true rfl (List.forall_mem_nil _)
  | @cons v node items nodes hv _ ih =>
    rw [List.forall_mem_cons, ← hv, ← ih, valuesOfNodes?]
    cases Value.ofNode? levels node with
    | none => simp
    | some v => cases valuesOfNodes? levels nodes <;> simp

theorem isSome_membersOfNodes?_iff {P : Value → Prop} {members : List (String × Value)}
    {nodes : List (String × Node)}
    (h : List.Forall₂ (fun m n => n.1 = m.1 ∧ ((Value.ofNode? levels n.2).isSome = true ↔ P m.2))
      members nodes) :
    (membersOfNodes? levels (namedNodes nodes)).isSome = true ↔ ∀ m ∈ members, P m.2 := by
  induction h with
  | nil => exact iff_of_true rfl (List.forall_mem_nil _)
  | @cons m n members nodes hm _ ih =>
    rw [List.forall_mem_cons, ← hm.2, ← ih]
    show (membersOfNodes? levels ((unitsOf n.1, n.2) :: namedNodes nodes)).isSome = true ↔ _
    rw [membersOfNodes?, decodeText?_unitsOf]
    cases Value.ofNode? levels n.2 with
    | none => simp
    | some v => cases membersOfNodes? levels (namedNodes nodes) <;> simp

/-- **A value** whose integers are of 64 bits is read if and only if it is not too deep. -/
theorem Value.Legible.exists_writes {depth : Nat} (h : v.Legible depth) :
    ∃ node, Writes v.render node ∧
      ∀ levels, (Value.ofNode? levels node).isSome = true ↔ v.Legible levels := by
  induction h with
  | null => exact ⟨.null, writes_null, fun _ => iff_of_true rfl .null⟩
  | bool b => exact ⟨.bool b, writes_bool b, fun _ => iff_of_true rfl (.bool b)⟩
  | integer hlow hhigh =>
    obtain ⟨t, hwrites, ht⟩ := exists_writes_render (readBack?_integer hlow hhigh)
    refine ⟨.number t, hwrites, fun levels => iff_of_true ?_ (.integer hlow hhigh)⟩
    rw [Value.ofNode?, ht]
    rfl
  | double x =>
    obtain ⟨node, v, hwrites, hv, _⟩ := exists_writes_float (isSome_readBack?_double_iff x)
    exact ⟨node, hwrites, fun levels => iff_of_true (by rw [hv levels]; rfl) (.double x)⟩
  | single x =>
    obtain ⟨node, v, hwrites, hv, _⟩ := exists_writes_float (isSome_readBack?_single_iff x)
    exact ⟨node, hwrites, fun levels => iff_of_true (by rw [hv levels]; rfl) (.single x)⟩
  | text s =>
    refine ⟨_, writes_renderText s, fun levels => iff_of_true ?_ (.text s)⟩
    rw [Value.ofNode?, decodeText?_unitsOf]
    rfl
  | array _ ih =>
    obtain ⟨nodes, hwrites, hnodes⟩ := exists_writes_array ih
    refine ⟨_, hwrites, fun levels => ?_⟩
    rw [Value.legible_array_iff]
    cases levels with
    | zero => simp [Value.ofNode?]
    | succ levels =>
      rw [Value.ofNode?, Option.isSome_map,
        isSome_valuesOfNodes?_iff (hnodes.imp fun _ _ hv => hv levels)]
      simp
  | object _ ih =>
    obtain ⟨nodes, hwrites, hnodes⟩ := exists_writes_object id ih
    rw [List.map_id] at hwrites
    refine ⟨_, hwrites, fun levels => ?_⟩
    rw [Value.legible_object_iff]
    cases levels with
    | zero => simp [Value.ofNode?]
    | succ levels =>
      rw [Value.ofNode?, Option.isSome_map,
        isSome_membersOfNodes?_iff (hnodes.imp fun _ _ hm => ⟨hm.1, hm.2 levels⟩)]
      simp

end SparseGraph.Json
