import TensorGraph.Binary.Double

/-!
# JSON values

Objects keep the order of their fields.
-/

namespace TensorGraph

inductive Json where
  | null
  | bool (b : Bool)
  | int (i : Int)
  | float (x : Double)
  | string (s : String)
  | array (items : List Json)
  | object (fields : List (String × Json))
deriving Repr, Inhabited

end TensorGraph
