import SparseGraph.TableFile.Leaf
import SparseGraph.TableFile.Metadata

namespace SparseGraph.TableFile

/-!
# The columns of a table

Columns that belong together form a group, and all columns form the root. They are told one after
another, each group before what it holds.

* `Node` — a column with values or a group;
* `schemaOf` — the root of the columns that are told;
* `Node.leaves` — the columns with values in order.
-/

/-- A column with values, or a group of columns. The root has no repetition. -/
inductive Node where
  | leaf (l : Leaf)
  | group (name : String) (repetition : Option Repetition) (label : Option Label)
      (children : List Node)
deriving Repr

/-- Why columns cannot be. -/
inductive SchemaFault where
  | unknownCode (fault : UnknownCode)
  | integerWidth
  | noRepetition
  | leaf (name : String) (fault : LeafFault)
  /-- Groups need more columns than there are. -/
  | tooFew (count : Nat)
  /-- There are so many roots. -/
  | roots (count : Nat)
deriving DecidableEq, Repr

/-- The wording of a fault. -/
def SchemaFault.message : SchemaFault → String
  | .unknownCode fault => fault.message
  | .integerWidth => "Bit width must be 8, 16, 32, or 64 for Integer logical type"
  | .noRepetition => "Repetition level must be defined for a primitive type"
  | .leaf name fault => fault.message name
  | .tooFew count => s!"Index out of bound, index = {count}, len = {count}"
  | .roots count => s!"Expected exactly one root node, but found {count}"

/-! ### What is told -/

namespace ToldColumn

/-- Whether it holds columns. -/
def isGroup (t : ToldColumn) : Bool :=
  t.children.any (· ≠ 0)

/-- The label that is told of. -/
def label? (t : ToldColumn) : Except SchemaFault (Option Label) := do
  let label ← t.label.mapM fun code => (decode labels code).mapError .unknownCode
  if t.meaning.all Meaning.hasWidth then return label else throw .integerWidth

/-- The repetition that is told of. -/
def repetition? (t : ToldColumn) : Except SchemaFault (Option Repetition) :=
  t.repetition.mapM fun code => (decode repetitions code).mapError .unknownCode

/-- A group of these columns. -/
def toGroup (t : ToldColumn) (repetition : Option Repetition) (label : Option Label)
    (children : List Node) : Node :=
  .group t.name repetition (label <|> t.meaning.bind Meaning.label?) children

/-- A column that holds no columns: without a type it is a group all the same. -/
def toSingle (t : ToldColumn) (label : Option Label) : Except SchemaFault Node := do
  match ← t.repetition? with
  | none => throw .noRepetition
  | some repetition =>
    match t.type with
    | none => return t.toGroup (some repetition) label []
    | some code =>
      let l : Leaf := {
        name := t.name
        type := ← (decode valueTypes code).mapError .unknownCode
        repetition, label
        meaning := t.meaning
        length := t.length.getD (-1)
        scale := t.scale.getD (-1)
        precision := t.precision.getD (-1) }
      l.check.mapError (.leaf t.name)
      return .leaf l

end ToldColumn

/-! ### Columns in order -/

/-- The next `count` columns and what is told behind them. Each takes one of those that are told, so
    that `fuel` bounds them all; there were `size` of them. -/
def nodesOf (size : Nat) :
    Nat → Nat → List ToldColumn → Except SchemaFault (List Node × List ToldColumn)
  | _, 0, told => .ok ([], told)
  | fuel + 1, count + 1, t :: told => do
    let label ← t.label?
    let (node, told) ←
      if t.isGroup then do
        let repetition ← t.repetition?
        let (children, told) ← nodesOf size fuel (t.children.getD 0).toNat told
        pure (t.toGroup repetition label children, told)
      else do
        pure (← t.toSingle label, told)
    let (nodes, told) ← nodesOf size fuel count told
    return (node :: nodes, told)
  | _, _ + 1, _ => .error (.tooFew size)

/-- All columns that are told, however many they are. -/
def allNodesOf (size : Nat) : Nat → List ToldColumn → Except SchemaFault (List Node)
  | 0, _ | _, [] => .ok []
  | fuel + 1, told => do
    let (nodes, told) ← nodesOf size size 1 told
    return nodes ++ (← allNodesOf size fuel told)

/-- The root with the columns behind it. It is a group without repetition, and of one without
    columns nothing matters but its name. -/
def rootOf (size : Nat) (root : ToldColumn) (told : List ToldColumn) :
    Except SchemaFault (Node × List ToldColumn) :=
  if root.isGroup then do
    let label ← root.label?
    let _ ← root.repetition?
    let (children, told) ← nodesOf size size (root.children.getD 0).toNat told
    return (root.toGroup none label children, told)
  else
    .ok (.group root.name none none [], told)

/-- The root of the columns that are told. -/
def schemaOf : List ToldColumn → Except SchemaFault Node
  | [] => .error (.roots 0)
  | root :: told => do
    let size := told.length + 1
    let (node, told) ← rootOf size root told
    let others ← allNodesOf size size told
    if others.isEmpty then return node else throw (.roots (others.length + 1))

mutual

/-- The columns with values in order. -/
def Node.leaves : Node → List Leaf
  | .leaf l => [l]
  | .group _ _ _ children => leavesOf children

/-- The columns with values in nodes. -/
def leavesOf : List Node → List Leaf
  | [] => []
  | node :: nodes => node.leaves ++ leavesOf nodes

end

mutual

/-- Whether it and all groups in it have a repetition. -/
def Node.repeats : Node → Bool
  | .leaf _ => true
  | .group _ repetition _ children => repetition.isSome && allRepeat children

/-- Whether nodes and all groups in them have a repetition. -/
def allRepeat : List Node → Bool
  | [] => true
  | node :: nodes => node.repeats && allRepeat nodes

end

/-- The columns in a node. -/
def Node.children : Node → List Node
  | .leaf _ => []
  | .group _ _ _ children => children

example : (schemaOf [{ name := "schema" }]).toOption.map Node.leaves = some [] := rfl

/-- A group needs as many columns as it tells. -/
example : (schemaOf [{ name := "schema", children := some 1 }]).toOption.map Node.leaves = none :=
  rfl

end SparseGraph.TableFile
