import TensorGraph.Node
import TensorGraph.Typing.Place

/-!
# Joins and selections

Operators that join tensors along an axis, and that pick parts along one.
-/

namespace TensorGraph.Typing

/-- The numbers of sizes in the operands, if all of them are vectors of sizes. -/
def sizeCounts? (operands : List Value) : Option (List Size) :=
  operands.mapM fun (v : Value) => match v.type with
    | .shape rank => some rank
    | _ => none

/-- The shape of operands joined along an axis. -/
def joinedShape (axis : Quantity) (shapes : List (List Size)) : Except Error (List Size) := do
  let i ← axis.index
  let joined ← Size.sum (← shapes.mapM (Place.get · i))
  return (shapes.headD []).set i.toNat joined

/-- The axis along which operands of a rank are joined. -/
def joinAxis (n : Node) (rank : Size) : Except Error Quantity := do
  let axis ← (← n.quantity "axis" 0).normalize rank
  if (← axis.isNegative) || (← axis.reaches rank) then throw (.typing .concatAxis)
  return axis

def concat (n : Node) : Except Error ValueType := do
  if n.outputs.length ≠ 1 ∨ n.inputs = [] then throw (.typing .concatArity)
  if let some counts := sizeCounts? n.inputs then return .shape (← Size.sum counts)
  let first ← n.input 0
  let rank := first.type.rank
  if n.inputs.any (! ·.type.rank.equals rank) then throw (.typing .concatRank)
  let axis ← joinAxis n rank
  let shape ← match n.inputs.mapM (·.type.dims?) with
    | some shapes => (joinedShape axis shapes).map some
    | none => pure none
  return .ofRank first.type.element rank shape

/-- The sizes with the one at a place replaced by others. -/
def replacedAt (axis : Quantity) (dims inserted : List Size) : Except Error (List Size) := do
  let i ← axis.index
  let next ← (← axis.add 1).index
  return Place.before dims i ++ inserted ++ Place.onward dims next

/-- Picks parts of the first operand by the indices in the second. -/
def gather (n : Node) : Except Error ValueType := do
  let data ← n.input 0
  let indices ← n.input 1
  match data.type with
  | .shape _ =>
    if indices.type.rank.equals 0 then return .scalar .int64
    return .shape (.whole (← Size.product (indices.type.dims?.getD [])))
  | _ =>
    let axis ← (← n.quantity "axis" 0).normalize data.type.rank
    let shape ← match data.type.dims?, indices.type.dims? with
      | some ds, some is => (replacedAt axis ds is).map some
      | _, _ => pure none
    let rank ← (← data.type.rank.add indices.type.rank).sub 1
    return .ofRank data.type.element rank shape

end TensorGraph.Typing
