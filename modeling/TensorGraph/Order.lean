import TensorGraph.Node

/-!
# The order of nodes

No node may read what a later node writes, and no value may be written twice.
-/

namespace TensorGraph

/-- The positions of the nodes that read each named value, once for each operand. -/
def readers (nodes : List Node) : Table String (List Nat) :=
  nodes.zipIdx.foldl (fun t (n, i) =>
    n.inputs.foldl (fun t v =>
      if v.name = "" then t else t.insert v.name ((t.get? v.name).getD [] ++ [i])) t) ∅

/-- Fails if one of the values that the node at position `i` writes has a reader before it. -/
def checkReaders (table : Table String (List Nat)) (i : Nat) (outputs : List Value) :
    Except Error Unit :=
  outputs.forM fun v =>
    if v.name = "" then .ok ()
    else match (table.get? v.name).bind (·.find? (· < i)) with
      | some reader => .error (.structural (.outOfOrder v.name i reader))
      | none => .ok ()

/-- Fails at the first value that a node writes after another has read it. -/
def checkOrder (nodes : List Node) : Except Error Unit :=
  let table := readers nodes
  nodes.zipIdx.forM fun (n, i) => checkReaders table i n.outputs

/-- Whether no node reads what a later node writes. -/
def isOrdered (nodes : List Node) : Bool := (checkOrder nodes).isOk

/-- The node that writes each named value. No value may be written twice. -/
def producers (nodes : List Node) : Except Error (Table String Nat) :=
  nodes.zipIdx.foldlM (fun t (n, i) =>
    n.outputs.foldlM (fun (t : Table String Nat) v =>
      if v.name = "" then .ok t
      else match t.get? v.name with
        | some first => .error (.structural (.producedTwice v.name i first))
        | none => .ok (t.insert v.name i)) t) ∅

/-- An edge: a value, where it comes from, and the nodes that read it. -/
structure Edge where
  value : String
  producer : String
  readers : List String
deriving DecidableEq, Repr

namespace Graph

/-- The names of the nodes that read a value. -/
def readerNames (g : Graph) (value : String) : List String :=
  (((readers g.nodes).get? value).getD []).filterMap fun i => g.nodes[i]?.map Node.name

/-- The edges from the inputs, and then those from the nodes. -/
def edges (g : Graph) : Except Error (List Edge) := do
  let written ← producers g.nodes
  let fromInputs := g.inputs.map fun v => Edge.mk v.name "<input>" (g.readerNames v.name)
  let fromNodes := written.entries.filterMap fun (value, i) =>
    g.nodes[i]?.map fun n => Edge.mk value n.name (g.readerNames value)
  return fromInputs ++ fromNodes

/-- The first node of the given name. -/
def node? (g : Graph) (name : String) : Option Node := g.nodes.find? (·.name = name)

end Graph

end TensorGraph
