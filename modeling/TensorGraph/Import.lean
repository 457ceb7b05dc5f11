import TensorGraph.Import.Fuse
import TensorGraph.Import.Specialise
import TensorGraph.Import.State
import TensorGraph.Import.Unsqueeze
import TensorGraph.Order
import TensorGraph.Typing

/-!
# The import of a model

One pass over the nodes of a model in the order of the file.
-/

namespace TensorGraph

open Onnx

namespace Onnx.ModelMessage

/-- Checks the order of a model's nodes by their names alone. -/
def checkOrder (m : ModelMessage) : Except Error Unit := do
  TensorGraph.checkOrder (← m.nodes.mapM NodeMessage.toBareNode)

/-- A naming error often comes of nodes in a wrong order: where the order is wrong, that is what is
reported. -/
def diagnose {α : Type} (m : ModelMessage) (x : Except Error α) : Except Error α :=
  match x with
  | .error (.naming e) => do
    m.checkOrder
    .error (.naming e)
  | x => x

end Onnx.ModelMessage

namespace ImportState

/-- Types a node and records its outputs. -/
def inferAndRecord (r : Registry) (n : Node) : Except Error (Registry × Node) := do
  let n ← n.infer
  match r.record n.name n.outputs with
  | (r, .ok ()) => return (r, n)
  | (_, .error e) => throw e

/-- Whether the output of a node may get its name before it is registered. -/
def isTransparent : Operator → Bool
  | .constant | .identity => true
  | _ => false

/-- Renames the operands and the outputs of a node. -/
def renameValues (m : ModelMessage) (r : Registry) (n : Node) : Except Error (Registry × Node) := do
  let (r, inputs) ← m.diagnose (renameInputs r n.inputs)
  let (r, outputs) ← if isTransparent n.operator then renameLiteral n r
    else m.diagnose (renameOutputs n r 1 n.outputs)
  return (r, { n with inputs, outputs })

/-- Imports a node of the file. Tells whether the node after it has been taken over. -/
def step (m : ModelMessage) (s : ImportState) (raw : NodeMessage) (next : Option NodeMessage) :
    Except Error (ImportState × Bool) := do
  let n ← s.registry.convert raw
  let n ← n.specialise
  let (n, consumed) ← n.fuse s.registry next
  let (s, n) := s.nameNode n
  let (s, n) ← s.elide n
  let (s, n) ← s.lift n
  let n ← m.diagnose (n.unsqueezeAsReshape s.registry)
  let (r, n) ← m.diagnose (inferAndRecord s.registry n)
  let (r, n) ← renameValues m r n
  return (s.push r n, consumed)

/-- Imports the nodes of the file in turn; `consumed` tells that the first has been taken over. -/
def steps (m : ModelMessage) (s : ImportState) (consumed : Bool) :
    List NodeMessage → Except Error ImportState
  | [] => .ok s
  | raw :: rest =>
    if consumed then s.steps m false rest
    else do
      let (s, consumed) ← s.step m raw rest.head?
      s.steps m consumed rest

end ImportState

namespace Onnx.ModelMessage

/-- Imports a model, up to the state that its graph is taken from. -/
def importState (m : ModelMessage) (checkFirst : Bool) : Except Error ImportState := do
  if checkFirst then m.checkOrder
  let s : ImportState := { registry := ← Registry.ofModel m }
  s.steps m false m.nodes

/-- Imports a model. -/
def importGraph (m : ModelMessage) (checkFirst : Bool) : Except Error Graph := do
  return (← m.importState checkFirst).graph m.name

end Onnx.ModelMessage

end TensorGraph
