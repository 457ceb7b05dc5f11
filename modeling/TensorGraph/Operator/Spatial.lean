import TensorGraph.Operator

/-!
# Spatial axes of operators

Operators on windows come in a generic kind and in kinds for a fixed number of spatial axes.
-/

namespace TensorGraph.Operator

/-- The kinds for a fixed number of spatial axes, with that number. -/
def spatialKinds : Operator → List (Nat × Operator)
  | .conv => [(1, .conv1d), (2, .conv2d), (3, .conv3d)]
  | .convTranspose => [(1, .convTranspose1d), (2, .convTranspose2d), (3, .convTranspose3d)]
  | .maxPool => [(1, .maxPool1d), (2, .maxPool2d)]
  | .averagePool => [(1, .averagePool1d), (2, .averagePool2d)]
  | _ => []

/-- The kind for `count` spatial axes. -/
def ofSpatialAxes? (o : Operator) (count : Nat) : Option Operator :=
  (spatialKinds o).lookup count

/-- The number of spatial axes that the kind fixes. -/
def spatialAxes? : Operator → Option Nat
  | .conv1d | .convTranspose1d | .maxPool1d | .averagePool1d => some 1
  | .conv2d | .convTranspose2d | .maxPool2d | .averagePool2d => some 2
  | .conv3d | .convTranspose3d => some 3
  | _ => none

theorem spatialAxes?_ofSpatialAxes? {o o' : Operator} {count : Nat}
    (h : o.ofSpatialAxes? count = some o') : o'.spatialAxes? = some count := by
  unfold ofSpatialAxes? spatialKinds at h
  split at h <;> simp only [List.lookup_cons, List.lookup_nil] at h <;> repeat' split at h
  all_goals simp_all [spatialAxes?]
  all_goals subst h; rfl

end TensorGraph.Operator
