import TensorGraph.Registry

/-!
# Linear layers

Matrix products with weights that are known beforehand become linear layers. A product of two
operands takes over the bias that the next node adds.
-/

namespace TensorGraph

/-- A value that holds a matrix, with the axes of the matrix exchanged. An array that has no axes
gets one. -/
def Value.transpose (v : Value) : Value :=
  match v.literal with
  | none => v
  | some a =>
    let a := if a.shape = [] then .vector a.layout a.data else a.transpose
    { v with
      literal := some a
      type := .tensor v.type.element 2 (some (a.shape.map Size.ofNat)) }

namespace Node

/-- Whether an attribute is the number `n`, as it is if it is missing. -/
def isNumber (n : Node) (key : String) (expected : Int) : Except Error Bool :=
  match n.attribute? key with
  | none => .ok true
  | some v => v.equals expected

/-- Whether the operand at a place is a matrix that is known beforehand. -/
def hasLiteralMatrix (n : Node) (place : Nat) : Bool :=
  (n.inputs[place]?.map Value.isLiteralMatrix).getD false

/-- Whether the product is neither scaled nor transposed on the left. -/
def isPlainProduct (n : Node) : Except Error Bool := do
  if ! (← n.isNumber "alpha" 1) then return false
  if ! (← n.isNumber "beta" 1) then return false
  n.isNumber "transA" 0

/-- Whether the weight is stored with its axes exchanged. -/
def storesTransposed (n : Node) : Except Error Bool :=
  match n.attribute? "transB" with
  | none => .ok false
  | some v => v.equals 1

/-- The general product of matrices as a linear layer, where it is one. -/
def fuseGemm (n : Node) : Except Error Node := do
  if n.outputs.length ≠ 1 then return n
  if ! (← n.isPlainProduct) then return n
  if ! n.hasLiteralMatrix 1 then return n
  let inputs := if ← n.storesTransposed then n.inputs.modify 1 Value.transpose else n.inputs
  return { n with
    operator := .linear
    inputs
    attributes := (((n.attributes.erase "transB").erase "alpha").erase "beta").erase "transA" }

/-- Whether the node `add` adds a literal to what the node `n` writes. -/
def isBiasOf (add n : Node) : Except Error Bool :=
  match add.operator, add.inputs with
  | .add, [a, b] => do
    let name := (← n.output 0).name
    return (a.name = name && b.literal.isSome) || (a.literal.isSome && b.name = name)
  | _, _ => .ok false

/-- The node with the literal of the addition `add` as a further operand, and with its output. -/
def absorbBias (n add : Node) : Except Error Node :=
  match add.inputs, n.outputs with
  | [a, b], v :: vs => do
    let bias := if a.literal.isSome then a else b
    return { n with
      inputs := n.inputs ++ [bias]
      outputs := { v with name := (← add.output 0).name } :: vs }
  | _, _ => outOfRange

/-- The product of matrices as a linear layer, where it is one. Tells whether the node after it has
been taken over. -/
def fuseMatMul (r : Registry) (n : Node) (next : Option Onnx.NodeMessage) :
    Except Error (Node × Bool) := do
  if n.inputs.length ≠ 2 ∨ ! n.hasLiteralMatrix 1 then return (n, false)
  let n := { n with operator := .linear }
  match next with
  | none => return (n, false)
  | some m =>
    if m.operator ≠ "Add" then return (n, false)
    let add ← r.convert m
    if ← add.isBiasOf n then return (← n.absorbBias add, true)
    return (n, false)

/-- The node with what it takes over. Tells whether the node after it is part of it. -/
def fuse (r : Registry) (n : Node) (next : Option Onnx.NodeMessage) : Except Error (Node × Bool) :=
  match n.operator with
  | .gemm => do return (← n.fuseGemm, false)
  | .matMul => n.fuseMatMul r next
  | _ => .ok (n, false)

end Node

end TensorGraph
