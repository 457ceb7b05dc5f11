import TensorGraph.Registry

/-!
# Unsqueezes onto a graph boundary

An Unsqueeze whose axes are known only when the graph runs, and which writes a graph boundary of
known shape, becomes a Reshape to that shape.
-/

namespace TensorGraph.Node

/-- The name of the generated operand of a node. -/
def shapeOperandName (n : Node) : String := s!"{n.name}_generated_const"

/-- A shape as a literal operand of the node. -/
def shapeOperand (n : Node) (dims : List Int) : Value where
  name := n.shapeOperandName
  type := .tensor .int64 1 (some [.ofNat dims.length])
  literal := some (.vector (.signed 64) (dims.map .int))

/-- The Reshape to the shape of `boundary` that does what the node does, if both are tensors and
the shape is known. -/
def reshapeTo? (n : Node) (boundary : Value) : Except Error (Option Node) := do
  let first ← n.output 0
  match first.type, boundary.type with
  | .tensor _ _ _, .tensor _ _ (some dims) =>
    let target ← dims.mapM Size.toWord
    return some { n with
      operator := .reshape
      inputs := (← n.input 0) :: n.shapeOperand target :: n.inputs.drop 2
      outputs := boundary :: n.outputs.drop 1 }
  | _, _ => return none

/-- Whether the node is an Unsqueeze whose axes are known only when the graph runs. -/
def unsqueezesAtRun (n : Node) : Bool :=
  match n.operator, n.inputs with
  | .unsqueeze, _ :: axes :: _ => axes.literal.isNone
  | _, _ => false

/-- The node as a Reshape, where it can be one. -/
def unsqueezeAsReshape (r : Registry) (n : Node) : Except Error Node := do
  if ! n.unsqueezesAtRun then return n
  match ← r.boundary? (← n.output 0).name with
  | none => return n
  | some boundary => return (← n.reshapeTo? boundary).getD n

end TensorGraph.Node
