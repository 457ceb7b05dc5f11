import TensorGraph.Constant
import TensorGraph.Registry

/-!
# The state of an import

What is known between two nodes of the file, and what each stage does to a node and to the state.
The stages run in a fixed order, each on what the stages before it have left.
-/

namespace TensorGraph

/-- An identity that is left out of the graph: where it stands, and the name that its readers read
instead of its output. -/
structure Elision where
  place : Nat
  source : String
deriving DecidableEq, Repr

/-- The state of an import. -/
structure ImportState where
  registry : Registry
  /-- The nodes so far, those that will be dropped among them. -/
  nodes : List Node := []
  /-- How many nodes of each kind have been named. -/
  counts : Table Operator Nat := ∅
  /-- The places of the nodes that will be dropped. -/
  removed : List Nat := []
  /-- Where the literal of a name stands: the place of a Constant or of an identity of a literal. -/
  constants : Table String Nat := ∅
  /-- The identities that are left out, by the name of their output. -/
  elisions : Table String Elision := ∅
deriving Repr

namespace ImportState

/-- The place of the node that is being imported. -/
def place (s : ImportState) : Nat := s.nodes.length

/-- Marks the node at a place as dropped. -/
def remove (s : ImportState) (place : Nat) : ImportState :=
  { s with removed := if place ∈ s.removed then s.removed else place :: s.removed }

/-- Names a node by its kind and its number among the nodes of that kind. -/
def nameNode (s : ImportState) (n : Node) : ImportState × Node :=
  let count := (s.counts.get? n.operator).getD 0 + 1
  ({ s with counts := s.counts.insert n.operator count },
    { n with name := s!"{n.operator.name.toLower}{count}" })

/-- What the readers of `name` read: the source of an identity that is left out, or `name`. -/
def sourceOf (s : ImportState) (name : String) : String :=
  match s.elisions.get? name with
  | some e => e.source
  | none => name

/-- Whether the node is an identity of a value that is not a literal, and does not write a graph
output. -/
def isElided (s : ImportState) (n : Node) : Except Error Bool := do
  if n.operator ≠ .identity then return false
  if (← n.input 0).literal.isSome then return false
  return ! s.registry.isOutput (← n.output 0).name

/-- Leaves an identity out; the operands of any other node are led past the identities before it. -/
def elide (s : ImportState) (n : Node) : Except Error (ImportState × Node) := do
  if ← s.isElided n then
    let elision := { place := s.place, source := s.sourceOf (← n.input 0).name }
    return ({ s with elisions := s.elisions.insert (← n.output 0).name elision }.remove s.place, n)
  else
    return (s, { n with inputs := n.inputs.map fun v => { v with name := s.sourceOf v.name } })

/-- The operators whose operands after the first must be known when code is made. -/
def liftsConstants : Operator → Bool
  | .batchNormalization | .clip | .conv1d | .conv2d | .dropout | .reshape | .unsqueeze => true
  | _ => false

/-- Whether the node writes a literal: a Constant, or an identity of a literal. -/
def writesLiteral (n : Node) : Except Error Bool :=
  match n.operator with
  | .constant => .ok true
  | .identity => do return (← n.input 0).literal.isSome
  | _ => .ok false

/-- The literal that a node writes: that of its first operand, or that of a Constant. -/
def literalOf (n : Node) : Except Error Value :=
  match n.inputs with
  | v :: _ => if v.literal.isSome then .ok v else n.constant
  | [] => n.constant

/-- Gives the operand the literal that its name stands for, if any. The node that wrote the literal
is dropped. -/
def liftOperand (s : ImportState) (v : Value) : Except Error (ImportState × Value) :=
  match s.constants.get? v.name with
  | none => .ok (s, v)
  | some place =>
    match s.nodes[place]? with
    | none => outOfRange
    | some n => do return (s.remove place, v.copyFrom (← literalOf n))

/-- Lifts literals into operands, from left to right. -/
def liftOperands (s : ImportState) : List Value → Except Error (ImportState × List Value)
  | [] => .ok (s, [])
  | v :: vs => do
    let (s, v) ← s.liftOperand v
    let (s, vs) ← s.liftOperands vs
    return (s, v :: vs)

/-- Remembers the literal that a node writes, or lifts literals into the operands of a node after
the first, which is data. -/
def lift (s : ImportState) (n : Node) : Except Error (ImportState × Node) := do
  if ← writesLiteral n then
    return ({ s with constants := s.constants.insert (← n.output 0).name s.place }, n)
  else if liftsConstants n.operator then
    let (s, operands) ← s.liftOperands (n.inputs.drop 1)
    return (s, { n with inputs := n.inputs.take 1 ++ operands })
  else return (s, n)

/-- Renames the operands of a node, from left to right. An operand without a new name is left
unnamed. -/
def renameInputs (r : Registry) : List Value → Except Error (Registry × List Value)
  | [] => .ok (r, [])
  | v :: vs => do
    let (new, r) ← r.newName v.name
    let v := match new with
      | some name => { v with name, used := true }
      | none => { v with name := "", used := false }
    let (r, vs) ← renameInputs r vs
    return (r, v :: vs)

/-- The name of a node's output by its number, from one. -/
def outputName (n : Node) (number : Nat) : String := s!"{n.name}_out{number}"

/-- Renames the outputs of a node that have a name; `number` is that of the first. -/
def renameOutputs (n : Node) (r : Registry) (number : Nat) :
    List Value → Except Error (Registry × List Value)
  | [] => .ok (r, [])
  | v :: vs => do
    if v.name = "" then
      let (r, vs) ← renameOutputs n r (number + 1) vs
      return (r, v :: vs)
    let r ← r.rename v.name (outputName n number)
    let (r, vs) ← renameOutputs n r (number + 1) vs
    return (r, { v with name := outputName n number } :: vs)

/-- Renames the output of a Constant or of an identity, which may not be registered yet. -/
def renameLiteral (n : Node) (r : Registry) : Except Error (Registry × List Value) :=
  match n.outputs with
  | [] => outOfRange
  | v :: vs => do
    let name := outputName n 1
    return (← r.insertOrRename v name, { v with name } :: vs)

/-- Adds a node to the nodes so far. -/
def push (s : ImportState) (r : Registry) (n : Node) : ImportState :=
  { s with registry := r, nodes := s.nodes ++ [n] }

/-- The graph of the nodes that are not dropped, with the inputs and outputs that are used. -/
def graph (s : ImportState) (name : String) : Graph where
  name
  nodes := (s.nodes.zipIdx.filter (·.2 ∉ s.removed)).map Prod.fst
  inputs := s.registry.inputs.filter Value.used
  outputs := s.registry.outputs.filter Value.used

end ImportState

end TensorGraph
