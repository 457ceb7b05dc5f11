import TensorGraph.Literal
import TensorGraph.Onnx.DataType
import TensorGraph.Onnx.Message
import TensorGraph.Onnx.Wire
import TensorGraph.Text.Utf8

/-!
# Tensor messages

The literal arrays that tensor messages hold.
-/

namespace TensorGraph

/-- The element that a bit pattern stands for. Text has no pattern. -/
def Layout.ofBits (l : Layout) (bits : Nat) : Scalar :=
  match l with
  | bool => .bool (bits ≠ 0)
  | signed width => .int (Int.bmod bits (2 ^ width))
  | unsigned width => .int (bits % 2 ^ width : Nat)
  | float format => .float (.ofPattern format bits)
  | complex part =>
    .complex (.ofPattern part (bits % 2 ^ part.width)) (.ofPattern part (bits / 2 ^ part.width))
  | object => .int 0

/-- The number zero in an array of the layout. -/
def Layout.zero (l : Layout) : Scalar := l.ofBits 0

namespace Onnx

/-- Pairs of neighbours; none may be left over. -/
def pairs? : List Double → Option (List Scalar)
  | [] => some []
  | [_] => none
  | re :: im :: rest => (pairs? rest).map (.complex re im :: ·)

/-- The digits of a number to the base `2 ^ width`, the lowest first. -/
def digits (width : Nat) (n : Nat) : Nat → List Nat
  | 0 => []
  | count + 1 => n % 2 ^ width :: digits width (n / 2 ^ width) count

/-- How many elements the dimensions ask for. -/
def elementCount (dims : List Int) : Nat := (dims.map Int.toNat).prod

/-- The layouts whose elements share bytes. -/
def sharesBytes (width : Nat) : Bool := width = 2 || width = 4

/-- The first `count` of the elements, with zeros in the place of those that are missing. -/
def resized (count : Nat) (patterns : List Nat) : List Nat :=
  patterns.take count ++ List.replicate (count - patterns.length) 0

/-- The most bytes that an array may take up. -/
def maxBytes : Nat := 2 ^ 30

/-- The elements of a layout that shares bytes, from the bytes that hold them: as many as the
dimensions ask for, whatever there is. -/
def sharedPatterns (width : Nat) (dims : List Int) (bytes : List Nat) :
    Except Error (List Nat) :=
  -- past a zero no dimension counts
  let counting := dims.takeWhile (· ≠ 0)
  if counting.any (· < 0) ∨ dims.any (· < 0) then badValue
  else if counting.length = dims.length ∧ maxBytes < elementCount dims then
    .error (.fault .outOfMemory)
  else .ok (resized (elementCount dims) (bytes.flatMap (digits width · (8 / width))))

/-- The elements of six bits each in a run of bytes, the lowest bits first: as many as the
dimensions ask for. A dimension that is left open leaves out as many at the end. -/
def packedPatterns? (dims : List Int) (bytes : List Nat) : Option (List Nat) :=
  let bits := 8 * bytes.length
  let wanted : Int := 6 * dims.prod
  let kept := (if wanted < 0 then wanted + bits else min wanted bits).toNat
  if kept % 6 = 0 then
    some (digits 6 (bytes.foldr (fun b n => b + 256 * n) 0) (kept / 6))
  else none

namespace TensorMessage

/-- The bit patterns of the elements as bytes spell them. -/
def rawPatterns (m : TensorMessage) (width : Nat) (raw : List UInt8) : Except Error (List Nat) :=
  if sharesBytes width then sharedPatterns width m.dims (raw.map UInt8.toNat)
  else
    let patterns? := if width = 6 then packedPatterns? m.dims (raw.map UInt8.toNat)
      else Wire.words? ((width + 7) / 8) raw
    match patterns? with
    | some patterns => .ok patterns
    | none => badValue

/-- The elements in the list for their type. -/
def listedElements (m : TensorMessage) (layout : Layout) (width : Nat) :
    Except Error (List Scalar) :=
  match layout with
  | .float format =>
    if format = .binary32 then .ok (m.floats.map .float)
    else if format = .binary64 then .ok (m.doubles.map .float)
    else ofInts m.int32s
  | .complex part =>
    match pairs? (if part = .binary32 then m.floats else m.doubles) with
    | some elements => .ok elements
    | none => badValue
  | .signed 64 => .ok (m.int64s.map .int)
  | .unsigned 32 | .unsigned 64 => .ok (m.uint64s.map layout.ofBits)
  | .bool => .ok (m.int32s.map fun i => layout.ofBits (i % 256).toNat)
  | _ => ofInts m.int32s
where
  ofInts (numbers : List Int) : Except Error (List Scalar) := do
    let patterns := numbers.map fun i => (i % 2 ^ (max width 8)).toNat
    let patterns ← if sharesBytes width then sharedPatterns width m.dims patterns
      else pure (patterns.map (· % 2 ^ width))
    return patterns.map layout.ofBits

/-- Text without the NULs at its end. -/
def trimNuls (s : String) : String :=
  String.ofList (s.toList.reverse.dropWhile (· = '\x00')).reverse

/-- The elements of an array of text. -/
def textElements (m : TensorMessage) : Except Error (List Scalar) :=
  m.strings.mapM fun bs =>
    match Utf8.decode? bs with
    | some s => .ok (.text (trimNuls s))
    | none => .error (.fault .badText)

/-- The elements, in whichever form the message has them. -/
def elements (m : TensorMessage) (layout : Layout) : Except Error (List Scalar) :=
  match layout.width? with
  | none => m.textElements
  | some width =>
    match m.raw with
    | some raw => do return (← m.rawPatterns width raw).map layout.ofBits
    | none => m.listedElements layout width

/-- The array that the message holds. -/
def toLiteral (m : TensorMessage) : Except Error Literal := do
  if m.isSegment then badValue
  if m.dataType = 0 then wrongType
  match DataType.ofCode? m.dataType with
  | none => .error (.fault .unknownKey)
  | some t => Literal.ofDims t.layout (← m.elements t.layout) m.dims

end TensorMessage

end Onnx

end TensorGraph
