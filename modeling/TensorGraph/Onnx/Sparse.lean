import TensorGraph.Onnx.Array
import TensorGraph.Product

/-!
# Sparse arrays

A sparse array gives the entries other than zero, at places that are coordinates, row-major
positions or a mask.
-/

namespace TensorGraph.Onnx

/-- A position along one axis of `size` places; a negative one counts from the end. -/
def linearPosition (size : Nat) (i : Int) : Except Error Nat :=
  let k := if i < 0 then i + size else i
  if 0 ≤ k ∧ k < size then .ok k.toNat else outOfRange

/-- The row-major position of coordinates that lie within the dimensions. -/
def coordinatePosition (dims : List Int) (coordinates : List Int) : Except Error Nat :=
  let sizes := dims.map Int.toNat
  let index := coordinates.map Int.toNat
  if coordinates.all (0 ≤ ·) ∧ Position.Within sizes index then .ok (Position.ofIndex sizes index)
  else badValue

/-- The most coordinates that a place may have. -/
def maxCoordinates : Nat := 63

/-- The positions of the rows of a matrix of coordinates. -/
def coordinatePositions (dims : List Int) (width : Nat) (indices : Literal) :
    Except Error (List Nat) := do
  if width = 0 ∨ width ≠ dims.length ∨ maxCoordinates < width then badValue
  match indices.layout with
  | .float _ | .complex _ | .object => wrongType
  | _ => indices.parts.mapM fun (row : Literal) => do coordinatePosition dims (← row.toInts)

/-- Whether the elements can be used as positions: integers of whole bytes. -/
def countsPlaces : Layout → Bool
  | .signed width | .unsigned width => 8 ≤ width
  | _ => false

/-- The positions that the elements of an array are, as signed words. -/
def toPositions (indices : Literal) : Except Error (List Int) :=
  return (← indices.toInts).map fun i => Int.bmod i (2 ^ 64)

/-- Values spread over the given dimensions. -/
def spreadValues (values : Literal) (dims : List Nat) : Except Error (List Scalar) :=
  match values.spread? dims with
  | some xs => .ok xs
  | none => badValue

/-- The entries under a mask, which covers all places. One value is repeated. -/
def maskedEntries (mask values : Literal) : Except Error (List (Nat × Scalar)) :=
  let places := (mask.data.zipIdx.filter (·.1.isTrue)).map Prod.snd
  match values.shape with
  | [] | [_] => return places.zip (← spreadValues values [places.length])
  | _ => wrongType

/-- The entries of an array of which all places are chosen, or none. -/
def allOrNone (size : Nat) (all : Bool) (values : Literal) :
    Except Error (List (Nat × Scalar)) := do
  return (List.range size).zip (← spreadValues values [if all then 1 else 0, size])

/-- The entry at one place, which is one value. -/
def singleEntry (size : Nat) (i : Int) (values : Literal) : Except Error (List (Nat × Scalar)) := do
  if i < -2 ^ 63 ∨ 2 ^ 63 ≤ i then throw (.fault .overflow)
  let place ← linearPosition size i
  match values.shape with
  | [] => return values.data.map (place, ·)
  | _ => badValue

/-- The entries of an array of `size` elements, by position. The indices are rows of coordinates if
they form a matrix, a mask if they are truth values, otherwise positions in row-major order. -/
def entries (dims : List Int) (size : Nat) (indices values : Literal) :
    Except Error (List (Nat × Scalar)) :=
  match indices.shape, indices.data with
  | [count, width], _ => do
    let places ← coordinatePositions dims width indices
    return places.zip (← spreadValues values [count])
  | [], [.bool all] => allOrNone size all values
  | shape, data => do
    if indices.layout = .bool then
      if shape ≠ [size] then outOfRange
      maskedEntries indices values
    else if ! countsPlaces indices.layout then outOfRange
    else match shape, data with
      | [], [.int i] => singleEntry size i values
      | _, _ => do
        let spread ← spreadValues values shape
        return (← (← toPositions indices).mapM (linearPosition size)).zip spread

/-- Puts values at positions, in turn: of two at one position the later stays. -/
def scatter (data : List Scalar) (places : List (Nat × Scalar)) : List Scalar :=
  places.foldl (fun d p => d.set p.1 p.2) data

namespace SparseMessage

/-- The array that the message holds, where arrays of at most `memory` bytes can be allocated. -/
def toLiteralWithin (memory : Nat) (m : SparseMessage) : Except Error Literal := do
  let values ← m.values.toLiteral
  let size := wrappedProduct m.dims
  if size < 0 ∨ ! Literal.isCountable values.layout [size.toNat] then badValue
  if memory < values.layout.size * size.toNat then throw (.fault .arrayTooLarge)
  let places ← match m.indices with
    | none => pure []
    | some t => do entries m.dims size.toNat (← t.toLiteral) values
  let zeros := List.replicate size.toNat values.layout.zero
  Literal.ofDims values.layout (scatter zeros places) m.dims

/-- The array that the message holds. -/
def toLiteral (m : SparseMessage) : Except Error Literal := m.toLiteralWithin maxBytes

end SparseMessage

end TensorGraph.Onnx
