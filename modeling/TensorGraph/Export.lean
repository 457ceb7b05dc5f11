import TensorGraph.Json
import TensorGraph.Node
import TensorGraph.Text.Utf8

/-!
# Graphs as JSON

Every part of a graph as a JSON value. Graphs with complex elements have none.
-/

namespace TensorGraph

/-- An element; complex numbers have no form in JSON. -/
def Scalar.toJson : Scalar → Except Error Json
  | bool b => .ok (.bool b)
  | int i => .ok (.int i)
  | float x => .ok (.float x)
  | text s => .ok (.string s)
  | complex _ _ => wrongType

namespace Literal

/-- Elements in lists nested by the given dimensions: `leaf` writes an element, `list` a list. -/
def nest {β : Type} (leaf : Scalar → β) (list : List β → β) : List Nat → List Scalar → β
  | [], data => leaf (data.headD default)
  | d :: dims, data =>
    let part (i : Nat) := (data.drop (i * dims.prod)).take dims.prod
    list ((List.range d).map fun i => nest leaf list dims (part i))

/-- The array as nested lists; without axes it is its element. -/
def toJson (a : Literal) : Except Error Json :=
  nest Scalar.toJson (fun items => (items.mapM id).map Json.array) a.shape a.data

end Literal

def Attribute.toJson : Attribute → Except Error Json
  | int i => .ok (.int i)
  | ints is => .ok (.array (is.map .int))
  | float x => .ok (.float x)
  | floats xs => .ok (.array (xs.map .float))
  | string s => .ok (.string s)
  | strings ss => .ok (.array (ss.map .string))
  | array a => a.toJson
  | bytes bs => .ok (.string (Utf8.decodeValid bs))

/-- A size; bytes in its place have no form in JSON. -/
def Size.toJson : Size → Except Error Json
  | whole i => .ok (.int i)
  | real x => .ok (.float x)
  | odd (.bytes _) => wrongType
  | odd v => v.toJson

def ValueType.toJson : ValueType → Except Error Json
  | .tensor t dim dims? => do
    let shape ← match dims? with
      | some dims => Json.array <$> dims.mapM Size.toJson
      | none => pure .null
    return .object [
      ("kind", .string "tensor"), ("elem_type", .string t.name), ("dim", ← dim.toJson),
      ("shape", shape)]
  | .scalar t => return .object [("kind", .string "scalar"), ("elem_type", .string t.name)]
  | .shape rank => do return .object [("kind", .string "shape"), ("rank", ← rank.toJson)]

def Value.toJson (v : Value) : Except Error Json := do
  let fields := [("name", .string v.name), ("passed", .bool v.used), ("type", ← v.type.toJson)]
  match v.literal with
  | none => return .object fields
  | some a => return .object (fields ++ [("value", ← a.toJson)])

def Node.toJson (n : Node) : Except Error Json := do
  return .object [
    ("node_type", .string n.operator.name), ("name", .string n.name),
    ("inputs", .array (← n.inputs.mapM Value.toJson)),
    ("outputs", .array (← n.outputs.mapM Value.toJson)),
    ("attrs", .object (← n.attributes.entries.mapM fun (key, v) => do return (key, ← v.toJson)))]

def Graph.toJson (g : Graph) : Except Error Json := do
  return .object [
    ("name", .string g.name), ("nodes", .array (← g.nodes.mapM Node.toJson)),
    ("inputs", .array (← g.inputs.mapM Value.toJson)),
    ("outputs", .array (← g.outputs.mapM Value.toJson))]

end TensorGraph
