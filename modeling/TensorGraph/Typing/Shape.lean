import TensorGraph.Constant
import TensorGraph.Onnx.DataType
import TensorGraph.Typing.Reshape

/-!
# Casts, fills and sizes

Operators whose result type comes from a literal, from a number in an attribute, or from the shape
of their operand.
-/

namespace TensorGraph.Typing

/-- A conversion of elements to the type that `to` numbers. Sizes stay sizes as wide integers. -/
def cast (n : Node) : Except Error ValueType := do
  if n.inputs.length ≠ 1 ∨ n.outputs.length ≠ 1 then throw (.typing .castArity)
  let some (.int code) := n.attribute? "to" | throw (.typing .castTarget)
  let t ← Onnx.DataType.element code
  return match (← n.input 0).type with
    | .tensor _ dim shape => .tensor t dim shape
    | .shape rank => if t = .int64 then .shape rank else .tensor t 1 (some [rank])
    | .scalar _ => .scalar t

def constant (n : Node) : Except Error ValueType := return (← n.constant).type

/-- The element type of the value that fills a new tensor. -/
def fillElement (n : Node) : Except Error ElementType :=
  match n.attribute? "value" with
  | some (.array a) => a.layout.element
  | _ => .ok .float32

/-- A new tensor whose shape is the operand. -/
def constantOfShape (n : Node) : Except Error ValueType := do
  let t ← fillElement n
  let x ← n.input 0
  match x.literal with
  | some a =>
    let shape ← a.toInts
    return .ofRank t (.ofNat shape.length) (some (shape.map .whole))
  | none =>
    match x.type with
    | .shape rank => return .ofRank t rank none
    | type =>
      match leadingDim? type with
      | some rank => return .ofRank t rank none
      | none => throw (.typing .fillLength)

/-- How many places there are from `first` to `last` among `rank` places. -/
def placesBetween (rank : Size) (first last : Quantity) : Except Error Size := do
  let last := if (← last.compare? rank) = some .gt then .number rank else last
  let first := if ← first.isNegative then .number 0 else first
  let count ← last.sub first
  if (← count.compare? 0) = some .gt then count.toSize else return 0

/-- The sizes of the operand's axes from `start` to `end`. -/
def shape (n : Node) : Except Error ValueType := do
  if n.inputs.length ≠ 1 ∨ n.outputs.length ≠ 1 then throw (.typing .shapeArity)
  let rank := (← n.input 0).type.rank
  let first ← n.quantity "start" 0
  let last ← n.quantity "end" rank
  let first ← first.normalize rank
  let last ← last.normalize rank
  return .shape (← placesBetween rank first last)

end TensorGraph.Typing
