/-!
# Powers and products

In this namespace the powers of natural numbers and integers, and the unit that a product starts
from, are those of the core library, whatever other instances a file imports.
-/

namespace TensorGraph

attribute [scoped instance (1100)] instPowNat One.ofOfNat1

attribute [default_instance 10001] instPowNat

end TensorGraph
