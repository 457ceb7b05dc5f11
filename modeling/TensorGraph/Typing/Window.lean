import TensorGraph.Node
import TensorGraph.Operator.Spatial
import TensorGraph.Typing.Place

/-!
# Windows

Operators that slide a window over the spatial axes: convolutions and pools. The first two axes
are the batch and the channels.
-/

namespace TensorGraph.Typing

/-- The padding before and after each spatial axis: given for both ends, for both ends at once, or
not at all. -/
def splitPads (pads : List Int) (axes : Nat) : List Int × List Int :=
  if pads.length = 2 * axes then (pads.take axes, pads.drop axes)
  else if pads.length = axes then (pads, pads)
  else (List.replicate axes 0, List.replicate axes 0)

/-- How many places a window has along an axis of size `size`, padded on both sides. -/
def windowCount (size kernel : Size) (stride dilation before after : Int) : Except Error Size := do
  let padded ← (← size.add (.whole before)).add (.whole after)
  let reach ← Size.mul (.whole dilation) (← kernel.sub 1)
  let free ← (← padded.sub reach).sub 1
  (← free.floorDiv (.whole stride)).add 1

/-- The least number of strides that cover an axis. -/
def coverCount (size : Size) (stride : Int) : Except Error Size := do
  (← (← size.neg).floorDiv (.whole stride)).neg

/-- Whether the padding is chosen so that the strides cover each axis. -/
def coversAxes (n : Node) : Except Error Bool :=
  match n.attribute? "auto_pad" with
  | none => .ok false
  | some v => do
    if ← v.isText "SAME_UPPER" then return true
    v.isText "SAME_LOWER"

/-- The sizes of a window: those that an attribute gives, or the default. -/
def kernelSizes (n : Node) (default : List Size) : Except Error (List Size) :=
  match n.attribute? "kernel_shape" with
  | none => .ok default
  | some _ => (n.intList "kernel_shape" []).map (·.map .whole)

/-- The sizes of the spatial axes of the result. -/
def spatialDims (n : Node) (dims kernel : List Size) : Except Error (List Size) := do
  let axes := kernel.length
  let strides ← n.intList "strides" (List.replicate axes 1)
  let dilations ← n.intList "dilations" (List.replicate axes 1)
  let (before, after) := splitPads (← n.intList "pads" []) axes
  let sizes := if axes = 0 then dims else Place.onward dims (-axes)
  if ← coversAxes n then (sizes.zip strides).mapM fun (d, s) => coverCount d s
  else (List.range axes).mapM fun (i : Nat) => do
    windowCount (← Place.get sizes i) (← Place.get kernel i) (← Place.get strides i)
      (← Place.get dilations i) (← Place.get before i) (← Place.get after i)

/-- Whether the channels fall into the groups evenly. -/
def groupsDivide (n : Node) (channels : Size) : Except Error Bool := do
  (← n.quantity "group" 1).divides channels

/-- The number of spatial axes: what the kind fixes, or what the operand leaves. -/
def spatialCount (o : Operator) (rank : Size) : Except Error Size :=
  match o.spatialAxes? with
  | some k => .ok (.ofNat k)
  | none => rank.sub 2

def conv (n : Node) : Except Error ValueType :=
  match n.inputs, n.outputs with
  | x :: w :: _, [_] => do
    let rank := x.type.rank
    let expected ← (← spatialCount n.operator rank).add 2
    if ! rank.equals expected then throw (.typing (.convRank n.operator expected.text))
    match x.type.dims?, w.type.dims? with
    | some sx, some sw =>
      if ! (← groupsDivide n (← Place.get sx 1)) then throw (.typing .convGroups)
      let kernel ← kernelSizes n (sw.drop 2)
      let spatial ← spatialDims n sx kernel
      return .ofRank x.type.element rank
        (some ([← Place.get sx 0, ← Place.get sw 0] ++ spatial))
    | _, _ => return .ofRank x.type.element rank none
  | _, _ => .error (.typing .convArity)

/-- The size of a spatial axis of a transposed convolution. -/
def scatteredSize (size kernel : Size) (stride dilation padding before after : Int) :
    Except Error Size := do
  let spread ← Size.mul (.whole stride) (← size.sub 1)
  let reach ← (← kernel.sub 1).mul (.whole dilation)
  let full ← (← (← spread.add (.whole padding)).add reach).add 1
  (← full.sub (.whole before)).sub (.whole after)

/-- Text or a list as often as a size says. The size must fit a word, and so must the number of the
elements: a text that is too long overflows, and for a list memory does not suffice. -/
def repeated (v : Attribute) (size : Size) : Except Error Attribute := do
  let count ← size.index
  let copies {α : Type} (long : Fault) (xs : List α) : Except Error (List α) :=
    if 2 ^ 63 ≤ count then .error (.fault .overflow)
    else if 2 ^ 63 ≤ xs.length * count.toNat then .error (.fault long)
    else .ok (List.replicate count.toNat xs).flatten
  match v with
  | .string s => return .string (String.ofList (← copies .overflow s.toList))
  | .strings ss => return .strings (← copies .outOfMemory ss)
  | .ints is => return .ints (← copies .outOfMemory is)
  | .floats xs => return .floats (← copies .outOfMemory xs)
  | .bytes bs => return .bytes (← copies .overflow bs)
  | _ => wrongType

/-- The channels of all groups, from those of one. -/
def groupedChannels (n : Node) (channels : Size) : Except Error Size :=
  match n.attribute? "group" with
  | none => channels.mul 1
  | some (.array ⟨.object, [], [.text s], _⟩) => (repeated (.string s) channels).map .odd
  | some (.array ⟨_, _ :: _, _, _⟩) => wrongType
  | some v =>
    match v with
    | .int _ | .float _ | .array _ => do
      let product ← (← Quantity.ofAttribute v).combine (· * ·) Double.mul channels
      product.toSize
    | _ => (repeated v channels).map .odd

def convTranspose (n : Node) : Except Error ValueType := do
  let x ← n.input 0
  let w ← n.input 1
  let rank := x.type.rank
  match x.type.dims?, w.type.dims? with
  | some sx, some sw =>
    let spatialAxes ← spatialCount n.operator rank
    let kernel ← kernelSizes n (sw.drop 2)
    let axes ← spatialAxes.countBeside sx.length
    let strides ← n.intList "strides" (List.replicate axes 1)
    let dilations ← n.intList "dilations" (List.replicate axes 1)
    let padding ← n.intList "output_padding" (List.replicate axes 0)
    let (before, after) := splitPads (← n.intList "pads" []) axes
    let spatial ← (List.range axes).mapM fun (i : Nat) => do
      scatteredSize (← Place.get sx (i + 2)) (← Place.get kernel i) (← Place.get strides i)
        (← Place.get dilations i) (← Place.get padding i) (← Place.get before i)
        (← Place.get after i)
    let channels ← groupedChannels n (← Place.get sw 1)
    return .ofRank x.type.element rank (some ([← Place.get sx 0, channels] ++ spatial))
  | _, _ => return .ofRank x.type.element rank none

def pool (n : Node) : Except Error ValueType := do
  if n.outputs = [] then throw (.typing (.poolArity n.operator))
  let x ← n.input 0
  let kernel ← n.intList "kernel_shape" []
  if kernel = [] then throw (.typing (.poolKernel n.operator))
  match x.type.dims? with
  | none => return .ofRank x.type.element x.type.rank none
  | some sx =>
    if sx.length ≠ kernel.length + 2 then
      throw (.typing (.poolRank n.operator (kernel.length + 2)))
    let spatial ← spatialDims n sx (kernel.map .whole)
    return .ofRank x.type.element (.ofNat sx.length) (some (sx.take 2 ++ spatial))

/-- A pool with one window over each spatial axis. -/
def globalPool (n : Node) : Except Error ValueType := do
  let x ← n.input 0
  return .ofRank x.type.element x.type.rank
    (x.type.dims?.map fun sx => sx.take 2 ++ List.replicate (sx.length - 2) 1)

end TensorGraph.Typing
