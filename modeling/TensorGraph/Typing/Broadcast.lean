import TensorGraph.Node

/-!
# Broadcasting

Operands of different shapes are combined entry by entry, their axes matched from the last one
back.
-/

namespace TensorGraph

namespace Typing

/-- The size of an axis on which two operands meet: equal sizes, or the other one's for size one.
Any other two are refused with `clash`. -/
def meetDim (clash : Error) (a b : Size) : Except Error Size :=
  if a.equals b then .ok a
  else if a.equals 1 || b.equals 1 then a.larger b
  else .error clash

/-- The sizes of axes matched from the last one back, given in reverse. A missing axis has size
one. -/
def meetReversed (clash : Error) : List Size → List Size → Except Error (List Size)
  | [], bs => bs.mapM (meetDim clash 1)
  | as, [] => as.mapM (meetDim clash · 1)
  | a :: as, b :: bs => do return (← meetDim clash a b) :: (← meetReversed clash as bs)

/-- The sizes of two shapes broadcast together. -/
def broadcastDims (a b : List Size) : Except Error (List Size) :=
  let clash := Error.typing (.broadcastMismatch (Size.listText a) (Size.listText b))
  (meetReversed clash a.reverse b.reverse).map List.reverse

/-- The shape of several operands broadcast together, known if all of theirs are. -/
def broadcastShape (operands : List Value) : Except Error (Option (List Size)) :=
  match operands.mapM (·.type.dims?) with
  | some shapes => (shapes.foldlM broadcastDims []).map some
  | none => .ok none

/-- The largest number of axes among the operands. -/
def maxRank (operands : List Value) : Except Error Size :=
  match operands.map (·.type.rank) with
  | [] => .ok 0
  | r :: rs => rs.foldlM Size.larger r

/-- The element type of all operands promoted together. -/
def promoteAll : List Value → Except Error ElementType
  | [] => .ok .float32
  | v :: vs => vs.foldlM (fun t w => t.promote w.type.element) v.type.element

def isComparison : Operator → Bool
  | .equal | .greater | .greaterOrEqual | .less | .lessOrEqual => true
  | _ => false

/-- The operands that are there: named ones and literals; all of them if none is. -/
def presentOperands (n : Node) : List Value :=
  match n.inputs.filter fun v => v.name ≠ "" || v.literal.isSome with
  | [] => n.inputs
  | present => present

/-- The element type of an entry-wise operator: a power has that of its base, a comparison gives
truth values. -/
def entrywiseElement (o : Operator) (operands : List Value) : Except Error ElementType := do
  let t ← promoteAll (if o = .pow then operands.take 1 else operands)
  return if isComparison o then .bool else t

/-- Entry-wise operators. -/
def entrywise (n : Node) : Except Error ValueType := do
  if n.inputs = [] ∨ n.outputs.length ≠ 1 then throw (.typing (.broadcastArity n.operator))
  let operands := presentOperands n
  let t ← entrywiseElement n.operator operands
  let rank ← maxRank operands
  return .ofRank t rank (← broadcastShape operands)

/-- The choice between two operands by a third. -/
def select (n : Node) : Except Error ValueType := do
  if n.inputs.length ≠ 3 ∨ n.outputs.length ≠ 1 then throw (.typing .selectArity)
  let rank ← maxRank n.inputs
  let shape ← broadcastShape n.inputs
  return .ofRank (← n.input 1).type.element rank shape

end Typing

end TensorGraph
