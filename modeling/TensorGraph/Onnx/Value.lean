import TensorGraph.Node
import TensorGraph.Onnx.Sparse

/-!
# What messages stand for

The values and attributes of a file and, once the operands are known, its nodes.
-/

namespace TensorGraph.Onnx

/-- The value that a tensor message holds. -/
def TensorMessage.toValue (m : TensorMessage) : Except Error Value := do
  Value.ofLiteral m.name (← m.toLiteral)

/-- The size of an axis; one stands for a size that is not given. -/
def Dimension.toSize : Dimension → Size
  | .size n => .whole n
  | .symbol _ | .unknown => 1

/-- The value that a declaration describes. -/
def ValueMessage.toValue (m : ValueMessage) : Except Error Value := do
  let t ← DataType.element m.elementType
  return { name := m.name, type := match m.dims with
    | [] => .scalar t
    | dims => .tensor t (.ofNat dims.length) (some (dims.map Dimension.toSize)) }

/-- The attribute that a message holds; none for kinds that are not imported. -/
def AttributeMessage.value? (m : AttributeMessage) : Except Error (Option Attribute) :=
  match m.kind with
  | .int => .ok (some (.int m.int))
  | .float => .ok (some (.float m.float))
  | .string => .ok (some (.string (Utf8.decodeValid m.string)))
  | .ints => .ok (some (.ints m.ints))
  | .floats => .ok (some (.floats m.floats))
  | .strings => .ok (some (.strings (m.strings.map Utf8.decodeValid)))
  | .tensor => m.tensor.toLiteral.map fun a => some (.array a)
  | .sparse => m.sparse.toLiteral.map fun a => some (.array a)
  | .other => .ok none

/-- The attributes of a node; of two with one name the later stays. -/
def NodeMessage.toAttributes (m : NodeMessage) : Except Error Attributes :=
  m.attributes.foldlM (fun (t : Attributes) (a : AttributeMessage) => do
    match ← a.value? with
    | some v => return t.insert a.name v
    | none => return t) ∅

/-- The operator of a node. -/
def NodeMessage.knownOperator (m : NodeMessage) : Except Error Operator :=
  match Operator.ofName? m.operator with
  | some o => .ok o
  | none => .error (.unsupportedOperator m.operator)

/-- A value of which only the name is known. -/
def bareValue (name : String) : Value := { name }

/-- The node with the names of its operands, for which nothing else needs to be known. An operator
that is not known is kept as such. -/
def NodeMessage.toBareNode (m : NodeMessage) : Except Error Node := do
  return {
    operator := (Operator.ofName? m.operator).getD .unknown
    name := m.name
    inputs := m.inputs.map bareValue
    outputs := m.outputs.map bareValue
    attributes := ← m.toAttributes }

end TensorGraph.Onnx
