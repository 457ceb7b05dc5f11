import TensorGraph.Typing.Broadcast
import TensorGraph.Typing.Place

/-!
# Matrix products

The result types of matrix products, with and without a transposition, and of linear layers.
-/

namespace TensorGraph.Typing

/-- The rank of a product: that of the larger stack, or one less where a vector takes part. -/
def productRank (ra rb : Size) : Except Error Size := do
  let rank ← ra.larger rb
  let least ← ra.smaller rb
  if ← Size.atMost 2 least then return rank else rank.sub 1

/-- The product of matrices, or of stacks of matrices broadcast together. -/
def matMul (n : Node) : Except Error ValueType :=
  match n.inputs, n.outputs with
  | [a, b], [_] => do
    let t ← a.type.element.promote b.type.element
    let ra := a.type.rank
    let rb := b.type.rank
    let rank ← productRank ra rb
    match a.type.dims?, b.type.dims? with
    | some sa, some sb =>
      if (← ra.less 2) || (← rb.less 2) then return .ofRank t rank none
      let batch ← broadcastDims (Place.before sa (-2)) (Place.before sb (-2))
      let inner ← Place.get sa (-1)
      let inner' ← Place.get sb (-2)
      if ! inner.equals inner' then throw (.typing (.matMulDims inner.text inner'.text))
      return .ofRank t rank (some (batch ++ [← Place.get sa (-2), ← Place.get sb (-1)]))
    | _, _ => return .ofRank t rank none
  | _, _ => .error (.typing .matMulArity)

/-- A linear layer: rows of the operand times a weight matrix. -/
def linear (n : Node) : Except Error ValueType := do
  let x ← n.input 0
  let w ← n.input 1
  if ! w.type.rank.equals 2 then throw (.typing .linearWeight)
  let shape ← match x.type.dims?, w.type.dims? with
    | some sx, some sw => do pure (some (Place.before sx (-1) ++ [← Place.get sw 1]))
    | _, _ => pure none
  return .ofRank x.type.element x.type.rank shape

/-- The product of two matrices, each transposed or not. -/
def gemm (n : Node) : Except Error ValueType := do
  let a ← n.input 0
  let b ← n.input 1
  let shape ← match a.type.dims?, b.type.dims? with
    | some sa, some sb => do
      let rows ← Place.get sa (if ← n.flag "transA" false then 1 else 0)
      let columns ← Place.get sb (if ← n.flag "transB" false then 0 else 1)
      pure (some [rows, columns])
    | _, _ => pure none
  return .ofRank a.type.element 2 shape

end TensorGraph.Typing
