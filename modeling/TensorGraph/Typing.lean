import TensorGraph.Typing.Broadcast
import TensorGraph.Typing.Contraction
import TensorGraph.Typing.Reduction
import TensorGraph.Typing.Reshape
import TensorGraph.Typing.Select
import TensorGraph.Typing.Shape
import TensorGraph.Typing.Window

/-!
# Typing of nodes

The types of a node's outputs from its operands and attributes.
-/

namespace TensorGraph

namespace Typing

/-- The rule that gives the type of an operator's first output. Operators without a rule keep the
type of their first operand. -/
def rule? : Operator → Option (Node → Except Error ValueType)
  | .add | .and | .div | .equal | .greater | .greaterOrEqual | .less | .lessOrEqual | .max | .mean
  | .min | .mul | .or | .pow | .pRelu | .sub | .sum => some entrywise
  | .select => some select
  | .cast => some cast
  | .constant => some constant
  | .constantOfShape => some constantOfShape
  | .shape => some shape
  | .reshape => some reshape
  | .unsqueeze => some unsqueeze
  | .squeeze => some squeeze
  | .flatten => some flatten
  | .transpose => some transpose
  | .concat => some concat
  | .gather => some gather
  | .matMul => some matMul
  | .linear => some linear
  | .gemm => some gemm
  | .conv | .conv1d | .conv2d | .conv3d => some conv
  | .convTranspose | .convTranspose1d | .convTranspose2d | .convTranspose3d => some convTranspose
  | .maxPool | .maxPool1d | .maxPool2d | .averagePool | .averagePool1d | .averagePool2d => some pool
  | .globalAveragePool | .globalMaxPool => some globalPool
  | .reduceMax | .reduceMean | .reduceMin | .reduceProd | .reduceSum | .argMax => some reduce
  | _ => none

/-- The outputs with the type of the first operand, if there is one. -/
def keepType (n : Node) : List Value :=
  match n.inputs with
  | [] => n.outputs
  | x :: _ => n.outputs.map fun v => { v with type := x.type }

end Typing

/-- The outputs of a node with their types. Only the first output is typed by a rule. -/
def Node.typedOutputs (n : Node) : Except Error (List Value) :=
  match Typing.rule? n.operator with
  | none => .ok (Typing.keepType n)
  | some rule => do
    let t ← rule n
    match n.outputs with
    | [] => outOfRange
    | v :: vs => return { v with type := t } :: vs

/-- The node with its outputs typed. -/
def Node.infer (n : Node) : Except Error Node := return { n with outputs := ← n.typedOutputs }

end TensorGraph
