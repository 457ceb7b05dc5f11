import TensorGraph.Binary.Double
import TensorGraph.ElementType
import TensorGraph.Literal.Position

/-!
# Literal arrays

A literal array has a layout, a shape and its elements in row-major order.
-/

namespace TensorGraph

/-- One element of an array. -/
inductive Scalar where
  | bool (b : Bool)
  | int (i : Int)
  | float (x : Double)
  | complex (re im : Double)
  | text (s : String)
deriving DecidableEq, Repr, Inhabited

namespace Scalar

/-- The element as an integer: fractions are cut off, text is read as a numeral. -/
def toInt : Scalar → Except Error Int
  | bool b => .ok (if b then 1 else 0)
  | int i => .ok i
  | float x =>
    match x.truncate? with
    | some i => .ok i
    | none => if x.isNan then badValue else .error (.fault .overflow)
  | complex _ _ => wrongType
  | text s =>
    match Numeral.integer? s with
    | some i => .ok i
    | none => badValue

/-- Neither zero, nor false, nor empty text. -/
def isTrue : Scalar → Bool
  | bool b => b
  | int i => i ≠ 0
  | float x => ¬ x.isZero
  | complex re im => ¬ (re.isZero ∧ im.isZero)
  | text s => s ≠ ""

/-- Whether the element is the number `n`. -/
def equals (n : Int) : Scalar → Bool
  | bool b => n = if b then 1 else 0
  | int i => i = n
  | float x => x.toInt? = some n
  | complex re im => re.toInt? = some n ∧ im.isZero
  | text _ => false

end Scalar

/-- An array. -/
structure Literal where
  layout : Layout
  shape : List Nat
  /-- The elements, the last index running fastest. -/
  data : List Scalar
  length_data : data.length = shape.prod
deriving DecidableEq, Repr

namespace Literal

/-- An array without dimensions. -/
def scalar (layout : Layout) (x : Scalar) : Literal := ⟨layout, [], [x], rfl⟩

/-- An array with one dimension. -/
def vector (layout : Layout) (xs : List Scalar) : Literal := ⟨layout, [xs.length], xs, by simp⟩

instance : Inhabited Literal := ⟨vector .bool []⟩

/-- The array of the given shape, if the elements are as many as it asks for. -/
def ofData? (layout : Layout) (shape : List Nat) (data : List Scalar) : Option Literal :=
  if h : data.length = shape.prod then some ⟨layout, shape, data, h⟩ else none

/-- The element at an index. -/
def get? (a : Literal) (index : List Nat) : Option Scalar :=
  if Position.Within a.shape index then a.data[Position.ofIndex a.shape index]? else none

/-- The most dimensions that an array may have. -/
def maxRank : Nat := 64

/-- The dimensions asked for, made definite for `size` elements: one of them may be negative, and
stands for what the others leave. -/
def definiteDims (size : Nat) (dims : List Int) : Option (List Nat) :=
  let known := (dims.filter (0 ≤ ·)).map Int.toNat
  if dims.length > maxRank then none
  else match dims.length - known.length with
    | 0 => some known
    | 1 =>
      if known.prod ≠ 0 ∧ size % known.prod = 0 then
        some (dims.map fun d => if d < 0 then size / known.prod else d.toNat)
      else none
    | _ => none

/-- Whether the bytes of an array can be counted in 63 bits; axes without places are not counted. -/
def isCountable (layout : Layout) (dims : List Nat) : Bool :=
  layout.size * (dims.filter (· ≠ 0)).prod < 2 ^ 63

/-- The array of the given layout with the elements `data` and the dimensions asked for. -/
def ofDims (layout : Layout) (data : List Scalar) (dims : List Int) : Except Error Literal :=
  match (definiteDims data.length dims).bind (ofData? layout · data) with
  | some a => if isCountable layout a.shape then .ok a else badValue
  | none => badValue

/-- The array with its axes in reverse: of a matrix, the transpose. -/
def transpose (a : Literal) : Literal where
  layout := a.layout
  shape := a.shape.reverse
  data := (List.range a.shape.reverse.prod).map fun k =>
    (a.get? (Position.toIndex a.shape.reverse k).reverse).getD default
  length_data := by simp

/-- The parts along the first axis, each an array of the other axes. -/
def parts (a : Literal) : List Literal :=
  match a.shape with
  | [] => []
  | d :: dims => (List.range d).filterMap fun i =>
    ofData? a.layout dims ((a.data.drop (i * dims.prod)).take dims.prod)

/-- The elements spread over the given dimensions, if they fit: axes are matched from the last one
back, and an axis of size one is repeated. Leading axes of size one do not count. -/
def spread? (a : Literal) (dims : List Nat) : Option (List Scalar) :=
  let own := a.shape.dropWhile (· = 1)
  let extra := dims.length - own.length
  if own.length ≤ dims.length ∧ (own.zip (dims.drop extra)).all fun (d, e) => d = e ∨ d = 1 then
    some ((List.range dims.prod).map fun k =>
      let index := (own.zip ((Position.toIndex dims k).drop extra)).map fun (d, i) =>
        if d = 1 then 0 else i
      a.data.getD (Position.ofIndex own index) default)
  else none

/-- The only element of an array of one. -/
def single? (a : Literal) : Option Scalar :=
  match a.data with
  | [x] => some x
  | _ => none

/-- The elements as integers. -/
def toInts (a : Literal) : Except Error (List Int) := a.data.mapM Scalar.toInt

end Literal

end TensorGraph
