import TensorGraph.Onnx.Value

/-!
# The registry of an import

What each name of the file stands for so far. Inputs and outputs of the graph have their slots
from the start; every node adds slots for what it produces. A name keeps its slot, while the value
in the slot changes.
-/

namespace TensorGraph

/-- What a name of the file stands for: a place in one of the registry's lists. -/
inductive Slot where
  | input (place : Nat)
  | output (place : Nat)
  /-- A value produced by a node. -/
  | interior (place : Nat)
deriving DecidableEq, Repr

structure Registry where
  /-- The slots by the names that the file uses. -/
  slots : Table String Slot := ∅
  /-- The arrays that the file holds, by name. -/
  initializers : Table String Value := ∅
  inputs : List Value := []
  outputs : List Value := []
  interior : List Value := []
  /-- Names that were read and stood for nothing. -/
  missed : List String := []
deriving DecidableEq, Repr

namespace Registry

open Onnx

/-- The value in a slot. -/
def value (r : Registry) : Slot → Value
  | .input i => r.inputs.getD i default
  | .output i => r.outputs.getD i default
  | .interior i => r.interior.getD i default

/-- Changes the value in a slot. -/
def modify (r : Registry) (f : Value → Value) : Slot → Registry
  | .input i => { r with inputs := r.inputs.modify i f }
  | .output i => { r with outputs := r.outputs.modify i f }
  | .interior i => { r with interior := r.interior.modify i f }

/-- Adds a slot for what a node produces, under a name of the file. -/
def addInterior (r : Registry) (name : String) (v : Value) : Registry :=
  { r with
    slots := r.slots.insert name (.interior r.interior.length)
    interior := r.interior ++ [v] }

/-- Adds a graph input. It takes the literal of the array with its name, and a name by its place. -/
def addInput (r : Registry) (m : ValueMessage) : Except Error Registry := do
  let v ← m.toValue
  let v := match r.initializers.get? m.name with
    | some a => v.copyFrom a
    | none => v
  let place := r.inputs.length
  return { r with
    slots := r.slots.insert m.name (.input place)
    inputs := r.inputs ++ [{ v with name := s!"input{place + 1}" }] }

/-- Adds a graph output, which keeps its name for the time being. -/
def addOutput (r : Registry) (m : ValueMessage) : Except Error Registry := do
  let v ← m.toValue
  return { r with
    slots := r.slots.insert m.name (.output r.outputs.length)
    outputs := r.outputs ++ [v] }

/-- The arrays of a file by name; of two with one name the later stays. -/
def initializersOf (m : ModelMessage) : Except Error (Table String Value) :=
  m.initializers.foldlM (fun t a => return t.insert a.name (← a.toValue)) ∅

/-- The registry before the first node. -/
def ofModel (m : ModelMessage) : Except Error Registry := do
  let r : Registry := { initializers := ← initializersOf m }
  let r ← m.inputs.foldlM addInput r
  m.outputs.foldlM addOutput r

/-- What a node reads under a name of the file. The value keeps that name. -/
def resolve (r : Registry) (name : String) : Except Error Value :=
  if name = "" then .ok { name }
  else match r.slots.get? name with
    | none => .ok ((r.initializers.get? name).getD { name })
    | some (.input i) => .ok { r.value (.input i) with name, used := true }
    | some (.interior i) => .ok { r.value (.interior i) with name }
    | some (.output _) => .error (.naming (.outputAsOperand name))

/-- The node of a message, with what is known of its operands. -/
def convert (r : Registry) (m : NodeMessage) : Except Error Node := do
  return {
    operator := ← m.knownOperator
    name := m.name
    inputs := ← m.inputs.mapM r.resolve
    outputs := m.outputs.map bareValue
    attributes := ← m.toAttributes }

/-- The new name of an operand that the file calls `name`: none for a literal, for an operand left
out, and for one that stands for nothing, which is remembered. An input counts as used from then
on. -/
def newName (r : Registry) (name : String) : Except Error (Option String × Registry) :=
  if name = "" then .ok (none, r)
  else match r.slots.get? name with
    | none =>
      .ok (none, if r.initializers.contains name then r else { r with missed := name :: r.missed })
    | some (.input i) =>
      let r := r.modify (fun v => { v with used := true }) (.input i)
      .ok (if r.initializers.contains name then none else some (r.value (.input i)).name, r)
    | some (.interior i) => .ok (some (r.value (.interior i)).name, r)
    | some (.output _) => .error (.naming (.outputUnnamed name))

/-- Gives the value that the file calls `name` a new name. -/
def rename (r : Registry) (name new : String) : Except Error Registry :=
  match r.slots.get? name with
  | none => .error (.naming (.noEntry name))
  | some (.input _) => .error (.naming (.inputRenamed name))
  | some slot => .ok (r.modify (fun v => { v with name := new }) slot)

/-- Gives the value `v`, under the name that the file has for it, a new name. If that name stands
for nothing yet, or for a produced value that has been renamed before, it gets a slot of its own. -/
def insertOrRename (r : Registry) (v : Value) (new : String) : Except Error Registry :=
  let inserted := r.addInterior v.name { v with name := new }
  let renamed (slot : Slot) := r.modify (fun w => { w with name := new }) slot
  match r.slots.get? v.name with
  | none => .ok inserted
  | some (.interior i) =>
    .ok (if (r.value (.interior i)).name = v.name then renamed (.interior i) else inserted)
  | some (.output i) => .ok (renamed (.output i))
  | some (.input _) => .error (.naming (.inputRenamed v.name))

/-- Records what the node called `producer` has produced. -/
def recordOne (r : Registry) (producer : String) (v : Value) : Except Error Registry :=
  if v.name = "" then .ok r
  else match r.slots.get? v.name with
    | none =>
      if v.name ∈ r.missed then .error (.naming (.producedLate v.name producer))
      else .ok (r.addInterior v.name v)
    | some (.input i) => .ok (r.modify (·.copyFrom v) (.input i))
    | some (.output i) => .ok (r.modify (fun w => { w.copyFrom v with used := true }) (.output i))
    | some (.interior _) => .error (.naming (.producedTwice v.name))

/-- Records the results of a node in turn, up to the first that cannot be. Gives the registry with
what has been recorded. -/
def record (r : Registry) (producer : String) : List Value → Registry × Except Error Unit
  | [] => (r, .ok ())
  | v :: vs =>
    match r.recordOne producer v with
    | .ok r' => r'.record producer vs
    | .error e => (r, .error e)

def isOutput (r : Registry) (name : String) : Bool :=
  match r.slots.get? name with
  | some (.output _) => true
  | _ => false

/-- The graph input or output that the file calls `name`, if there is one. -/
def boundary? (r : Registry) (name : String) : Except Error (Option Value) :=
  match r.slots.get? name with
  | none => .ok none
  | some (.interior _) => .error (.naming (.notBoundary name))
  | some slot => .ok (some (r.value slot))

end Registry

end TensorGraph
