import TensorGraph.Node
import TensorGraph.Typing.Place

/-!
# Rearrangements

Operators that keep the elements of their operand and arrange them along other axes.
-/

namespace TensorGraph.Typing

/-- The first size of a shape that is known and not empty. -/
def leadingDim? (t : ValueType) : Option Size := t.dims?.bind List.head?

/-- A target shape for an operand of known shape: a zero keeps the size at its place, unless zeros
are allowed. The attribute is consulted only where there is a zero. -/
def keepZeros (n : Node) (dims : List Size) (target : List Int) : Except Error (List Size) :=
  target.zipIdx.mapM fun (d, i) => do
    if d ≠ 0 then return .whole d
    if ← n.flag "allowzero" false then return 0
    return (dims[i]?).getD 0

/-- Stands for the size that the others leave. -/
def inferred : Size := .whole (-1)

/-- Replaces the first `-1` by what the other sizes leave of the number of elements. -/
def fillInferred (dims target : List Size) : Except Error (List Size) :=
  match target.findIdx? (·.equals inferred) with
  | none => .ok target
  | some i => do
    let known ← Size.product (target.filter (! ·.equals inferred))
    let total ← Size.product dims
    return target.set i (.whole (if known = 0 then 0 else Int.fdiv total known))

/-- The result of reshaping to a literal target. -/
def reshapeTo (n : Node) (x : ValueType) (target : List Int) : Except Error ValueType := do
  if 1 < target.count (-1) then throw (.typing .reshapeInferred)
  let shape ← match x.dims? with
    | some dims => do pure (some (← fillInferred dims (← keepZeros n dims target)))
    | none => pure (if -1 ∈ target ∨ 0 ∈ target then none else some (target.map .whole))
  return .ofRank x.element (.ofNat target.length) shape

/-- Reshaping to a target that is known only when the graph runs. -/
def reshapeAtRun (x : ValueType) (target : Option ValueType) : Except Error ValueType :=
  match target with
  | some (.shape rank) => .ok (.ofRank x.element rank none)
  | t =>
    match t.bind leadingDim? with
    | some rank => .ok (.ofRank x.element rank none)
    | none => .error (.typing .reshapeTarget)

def reshape (n : Node) : Except Error ValueType := do
  if n.outputs.length ≠ 1 ∨ (n.inputs.length ≠ 1 ∧ n.inputs.length ≠ 2) then
    throw (.typing .reshapeArity)
  let x ← n.input 0
  match ← n.integers? 1 "shape" with
  | some target => reshapeTo n x.type target
  | none => reshapeAtRun x.type (n.inputs[1]?.map Value.type)

/-- Two axes: the product of those before a place, and of those after. -/
def flatten (n : Node) : Except Error ValueType := do
  let x ← n.input 0
  let axis ← (← n.quantity "axis" 1).normalize x.type.rank
  let shape ← match x.type.dims? with
    | some dims => do
      let i ← axis.index
      let before ← Size.product (Place.before dims i)
      pure (some [.whole before, .whole (← Size.product (Place.onward dims i))])
    | none => pure none
  return .ofRank x.type.element 2 shape

/-- A negative axis counts from the end of `rank` axes. -/
def normalizeAxis (rank : Size) (a : Int) : Except Error Size :=
  if a < 0 then Size.add (.whole a) rank else .ok (.whole a)

/-- The place of a new axis, which must fit a signed word. -/
def insertionPlace (axis : Size) : Except Error Int := do
  let i ← axis.index
  if Size.isSigned i then return i else throw (.fault .overflow)

/-- New axes of size one, at places among the axes of the result. -/
def unsqueezeAt (x : ValueType) (axes : List Int) : Except Error ValueType := do
  let rank ← x.rank.add (.ofNat axes.length)
  match x.dims? with
  | none => return .ofRank x.element rank none
  | some dims =>
    let places ← axes.mapM fun a => do insertionPlace (← normalizeAxis rank a)
    let widened := places.mergeSort.foldl (fun ds a => Place.insert ds a 1) dims
    return .ofRank x.element rank (some widened)

def unsqueeze (n : Node) : Except Error ValueType := do
  let x ← n.input 0
  let _ ← n.output 0
  match ← n.integers? 1 "axes" with
  | some axes => unsqueezeAt x.type axes
  | none =>
    match n.inputs[1]?.bind (leadingDim? ·.type) with
    | some count => return .ofRank x.type.element (← x.type.rank.add count) none
    | none => throw (.typing .unsqueezeAxes)

/-- The places of axes, each once. -/
def distinctPlaces (rank : Size) (axes : List Int) : Except Error (List Size) := do
  return (← axes.mapM (normalizeAxis rank)).eraseDupsBy Size.equals

/-- Whether the axis `i` is at one of the given places. -/
def isAmong (places : List Size) (i : Nat) : Bool := places.any (·.equals (.ofNat i))

/-- The sizes whose places are not among the given ones. -/
def dropPlaces (places dims : List Size) : List Size :=
  (dims.zipIdx.filter fun e => ! isAmong places e.2).map Prod.fst

/-- Drops the axes at the given places. -/
def squeezeAt (x : ValueType) (axes : List Int) : Except Error ValueType := do
  let places ← distinctPlaces x.rank axes
  return .ofRank x.element (← x.rank.sub (.ofNat places.length)) (x.dims?.map (dropPlaces places))

def squeeze (n : Node) : Except Error ValueType := do
  let x ← n.input 0
  let _ ← n.output 0
  match ← n.integers? 1 "axes" with
  | some axes => squeezeAt x.type axes
  | none =>
    match x.type.dims? with
    | some dims =>
      let kept := dims.filter (! ·.equals 1)
      return .ofRank x.type.element (.ofNat kept.length) (some kept)
    | none => throw (.typing .squeezeAxes)

/-- The axes up to a rank, which must be an integer. -/
def axesUpTo (rank : Size) : Except Error (List Nat) := return List.range (← rank.count)

/-- The axes of a permutation attribute; in reverse order if it is missing. -/
def permutation (n : Node) (rank : Size) : Except Error (List Attribute) :=
  match n.attribute? "perm" with
  | some v => v.items
  | none => do return (← axesUpTo rank).reverse.map fun i => .int (i : Nat)

/-- Reads the axes of a permutation, each within the rank. -/
def permutedAxes (rank : Size) (axes : List Attribute) : Except Error (List Quantity) :=
  axes.mapM fun v => do
    let a ← Quantity.ofAttribute v
    if (← a.isNegative) || (← a.reaches rank) then throw (.typing .transposePerm) else return a

def transpose (n : Node) : Except Error ValueType := do
  if n.inputs.length ≠ 1 ∨ n.outputs.length ≠ 1 then throw (.typing .transposeArity)
  let x ← n.input 0
  let rank := x.type.rank
  let perm ← permutation n rank
  if ! rank.equals (.ofNat perm.length) then throw (.typing .transposePerm)
  let axes ← permutedAxes rank perm
  let shape ← match x.type.dims? with
    | some dims => (axes.mapM fun (a : Quantity) => do Place.get dims (← a.index)).map some
    | none => pure none
  return .ofRank x.type.element rank shape

end TensorGraph.Typing
