import TensorGraph.Binary.Double

/-!
# Messages

Model files as messages, with the fields that the importer reads. A field that a file leaves out
has its default: zero, or empty.
-/

namespace TensorGraph.Onnx

/-- An array. Its elements stand in `raw`, as bytes, or else in the list for its element type. -/
structure TensorMessage where
  name : String := ""
  dataType : Int := 0
  dims : List Int := []
  floats : List Double := []
  doubles : List Double := []
  int32s : List Int := []
  int64s : List Int := []
  uint64s : List Nat := []
  strings : List (List UInt8) := []
  raw : Option (List UInt8) := none
  /-- Whether this is a piece of a larger array. -/
  isSegment : Bool := false
deriving DecidableEq, Repr

/-- An array by its entries other than zero, and where they stand. -/
structure SparseMessage where
  values : TensorMessage := {}
  indices : Option TensorMessage := none
  dims : List Int := []
deriving DecidableEq, Repr

/-- The size of an axis. -/
inductive Dimension where
  | size (n : Int)
  | symbol (name : String)
  | unknown
deriving DecidableEq, Repr

/-- The declaration of a graph input or output. -/
structure ValueMessage where
  name : String := ""
  elementType : Int := 0
  dims : List Dimension := []
deriving DecidableEq, Repr

/-- Which field of an attribute holds its value. -/
inductive AttributeKind where
  | int
  | float
  | string
  | tensor
  | ints
  | floats
  | strings
  | sparse
  /-- Graphs, types and lists of tensors, which are not imported, or no kind at all. -/
  | other
deriving DecidableEq, Repr

structure AttributeMessage where
  name : String := ""
  kind : AttributeKind := .other
  int : Int := 0
  float : Double := ⟨0⟩
  string : List UInt8 := []
  tensor : TensorMessage := {}
  ints : List Int := []
  floats : List Double := []
  strings : List (List UInt8) := []
  sparse : SparseMessage := {}
deriving DecidableEq, Repr

structure NodeMessage where
  operator : String := ""
  name : String := ""
  inputs : List String := []
  outputs : List String := []
  attributes : List AttributeMessage := []
deriving DecidableEq, Repr

/-- A model, which is one graph. -/
structure ModelMessage where
  name : String := ""
  nodes : List NodeMessage := []
  inputs : List ValueMessage := []
  outputs : List ValueMessage := []
  initializers : List TensorMessage := []
deriving DecidableEq, Repr, Inhabited

end TensorGraph.Onnx
