import TensorGraph.Node
import TensorGraph.Operator.Spatial

/-!
# Specialised operators

Windowed operators take the kind for their number of spatial axes.
-/

namespace TensorGraph.Node

/-- The number of spatial axes that the rank of the weight tells. -/
def weightAxes? (n : Node) : Except Error (Option Size) :=
  match n.inputs[1]?.map Value.type with
  | some (.tensor _ dim _) => do if ← Size.less 2 dim then some <$> dim.sub 2 else return none
  | _ => .ok none

/-- The number of spatial axes: that of the kernel, or else what the rank of the weight tells. -/
def windowAxes? (n : Node) : Except Error (Option Size) :=
  match n.attribute? "kernel_shape" with
  | none => n.weightAxes?
  | some kernel => do
    if ← kernel.isTrue then return some (.ofNat (← kernel.length)) else n.weightAxes?

/-- The node with the kind for its number of spatial axes, if there is one. -/
def specialise (n : Node) : Except Error Node := do
  if n.operator.spatialKinds = [] then return n
  match (← n.windowAxes?).bind fun axes =>
    axes.integer?.bind fun count => n.operator.ofSpatialAxes? count.toNat with
  | some o => return { n with operator := o }
  | none => return n

end TensorGraph.Node
