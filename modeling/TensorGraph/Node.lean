import TensorGraph.Attribute
import TensorGraph.Operator
import TensorGraph.Quantity
import TensorGraph.Value

/-!
# Nodes and graphs

Nodes are applications of operators to values; a graph is a list of them between its inputs and
its outputs.
-/

namespace TensorGraph

/-- An application of an operator. -/
structure Node where
  operator : Operator
  name : String
  inputs : List Value := []
  outputs : List Value := []
  attributes : Attributes := ∅
deriving DecidableEq, Repr

/-- A graph: nodes in order of execution, with the values that enter and leave. -/
structure Graph where
  name : String
  nodes : List Node
  inputs : List Value
  outputs : List Value
deriving DecidableEq, Repr

namespace Node

def input (n : Node) (i : Nat) : Except Error Value :=
  match n.inputs[i]? with
  | some v => .ok v
  | none => outOfRange

def output (n : Node) (i : Nat) : Except Error Value :=
  match n.outputs[i]? with
  | some v => .ok v
  | none => outOfRange

def attribute? (n : Node) (key : String) : Option Attribute := n.attributes.get? key

/-- Integers given by a literal operand, or else by an attribute. -/
def integers? (n : Node) (operand : Nat) (key : String) : Except Error (Option (List Int)) :=
  match n.inputs[operand]?.bind Value.literal with
  | some a => a.toInts.map some
  | none =>
    match n.attribute? key with
    | some v => v.toInts.map some
    | none => .ok none

/-- A list of integers given by an attribute, or the default. -/
def intList (n : Node) (key : String) (default : List Int) : Except Error (List Int) :=
  match n.attribute? key with
  | none => .ok default
  | some v =>
    match v.intList? with
    | some is => .ok is
    | none => .error (.typing (.listAttribute key))

/-- A number given by an attribute, or the default. -/
def quantity (n : Node) (key : String) (default : Size) : Except Error Quantity :=
  match n.attribute? key with
  | none => .ok (.number default)
  | some v => Quantity.ofAttribute v

/-- Whether an attribute counts as set. -/
def flag (n : Node) (key : String) (default : Bool) : Except Error Bool :=
  match n.attribute? key with
  | none => .ok default
  | some v => v.isTrue

end Node

end TensorGraph
