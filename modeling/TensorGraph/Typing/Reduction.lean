import TensorGraph.Typing.Reshape

/-!
# Reductions

Operators that reduce along some axes.
-/

namespace TensorGraph.Typing

/-- The axis along which the greatest entry is sought. An array serves only as a negative number,
which is counted from the end. -/
def greatestAxis (n : Node) (rank : Size) : Except Error Size := do
  let axis ← n.quantity "axis" 0
  if ← axis.isNegative then (← axis.add rank).toSize
  else match axis with
    | .number s => return s
    | .element _ _ _ => wrongType

/-- The places of the axes of a reduction: one for the place of the greatest entry, otherwise any
number, given by a literal or an attribute; all of them if none is given. -/
def reducedPlaces (n : Node) (rank : Size) : Except Error (List Size) := do
  if n.operator = .argMax then return [← greatestAxis n rank]
  match ← n.integers? 1 "axes" with
  | some (a :: axes) => distinctPlaces rank (a :: axes)
  | _ => return (← axesUpTo rank).map Size.ofNat

/-- Puts size one at the given places. -/
def flattenPlaces (places dims : List Size) : List Size :=
  dims.zipIdx.map fun (d, i) => if isAmong places i then 1 else d

def reduce (n : Node) : Except Error ValueType := do
  let x ← n.input 0
  let rank := x.type.rank
  let places ← reducedPlaces n rank
  let t := if n.operator = .argMax then .int64 else x.type.element
  if ← n.flag "keepdims" true then
    return .ofRank t rank (x.type.dims?.map (flattenPlaces places))
  else
    return .ofRank t (← rank.sub (.ofNat places.length)) (x.type.dims?.map (dropPlaces places))

end TensorGraph.Typing
