import TensorGraph.Literal
import TensorGraph.ValueType

/-!
# Values

Named values: the operands and results of nodes, and the inputs and outputs of a graph.
-/

namespace TensorGraph

/-- A value on an edge. -/
structure Value where
  /-- The empty name stands for a value left out, or for a bare literal. -/
  name : String
  type : ValueType := default
  /-- The array, where the value is known beforehand. -/
  literal : Option Literal := none
  /-- Whether the graph reads or produces the value. Inputs and outputs that stay unused are
  dropped. -/
  used : Bool := false
deriving DecidableEq, Repr, Inhabited

/-- The type of an array: a scalar if it has no axes. -/
def Literal.type (a : Literal) : Except Error ValueType := do
  let t ← a.layout.element
  return match a.shape with
    | [] => .scalar t
    | dims => .tensor t (.ofNat dims.length) (some (dims.map Size.ofNat))

namespace Value

/-- A value that is the array `a`. -/
def ofLiteral (name : String) (a : Literal) : Except Error Value := do
  return { name, type := ← a.type, literal := some a }

/-- The value with the type and the literal of another. -/
def copyFrom (v other : Value) : Value := { v with type := other.type, literal := other.literal }

/-- Whether the value is a matrix that is known beforehand. -/
def isLiteralMatrix (v : Value) : Bool :=
  v.literal.isSome && v.type.isTensor && v.type.rank.equals 2

end Value

end TensorGraph
