import TensorGraph.Power

/-!
# Products of sizes

Sizes are multiplied in signed words of 64 bits.
-/

namespace TensorGraph

/-- A product of sizes, wrapped after each factor. -/
def wrappedProduct (dims : List Int) : Int :=
  dims.foldl (fun p d => Int.bmod (p * d) (2 ^ 64)) 1

end TensorGraph
