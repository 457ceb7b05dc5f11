import TensorGraph.Node
import TensorGraph.Text.Utf8

/-!
# Constants

The literal of a Constant node, which stands in one of several attributes.
-/

namespace TensorGraph

/-- The attributes that hold the literal as single-precision numbers. -/
def floatKeys : List String := ["value_float", "value_floats"]

/-- The attributes that hold the literal as integers. -/
def integerKeys : List String := ["value_int", "value_ints"]

namespace Scalar

/-- The element in single precision. -/
def toSingle : Scalar → Except Error Scalar
  | int i => .ok (float ((Double.ofInt i).round .binary32))
  | bool b => .ok (float ((Double.ofInt (if b then 1 else 0)).round .binary32))
  | float x => .ok (float (x.round .binary32))
  | complex _ _ => wrongType
  | text s =>
    match Numeral.real? s with
    | some x => .ok (float ((Double.ofReal x).round .binary32))
    | none => badValue

/-- The element as a 64-bit integer. -/
def toWide (x : Scalar) : Except Error Scalar := do
  let i ← x.toInt
  if Int.bmod i (2 ^ 64) = i then return int i else throw (.fault .overflow)

end Scalar

namespace Attribute

/-- Bytes as an element of the given layout: in an array of any kind they are text without the
pieces that are no UTF-8, otherwise they must spell a number in ASCII. -/
def byteText (layout : Layout) (bs : List UInt8) : Except Error Scalar :=
  if layout = .object then .ok (.text (Utf8.decodeValid bs))
  else if bs.all (· < 0x80) then .ok (.text (String.ofList (bs.map fun b => Char.ofNat b.toNat)))
  else badValue

/-- The attribute as a literal of the given layout, its elements read by `read`: a single value has
no axes, a list has one. An array stays as it is. -/
def toLiteral (layout : Layout) (read : Scalar → Except Error Scalar) :
    Attribute → Except Error Literal
  | int i => (read (.int i)).map (Literal.scalar layout)
  | float x => (read (.float x)).map (Literal.scalar layout)
  | string s => (read (.text s)).map (Literal.scalar layout)
  | bytes bs => (byteText layout bs >>= read).map (Literal.scalar layout)
  | ints is => (is.mapM fun i => read (.int i)).map (Literal.vector layout)
  | floats xs => (xs.mapM fun x => read (.float x)).map (Literal.vector layout)
  | strings ss => (ss.mapM fun s => read (.text s)).map (Literal.vector layout)
  | array a => .ok a

/-- The literal that the attribute called `key` holds. -/
def literalUnder (key : String) (v : Attribute) : Except Error Literal :=
  if key ∈ floatKeys then v.toLiteral (.float .binary32) Scalar.toSingle
  else if key ∈ integerKeys then v.toLiteral (.signed 64) Scalar.toWide
  else v.toLiteral .object .ok

end Attribute

/-- The literal of a Constant node, as a value without a name. -/
def Node.constant (n : Node) : Except Error Value :=
  match StructureError.literalKeys.findSome? fun key =>
    (n.attribute? key).map fun v => (key, v) with
  | some (key, v) => do Value.ofLiteral "" (← v.literalUnder key)
  | none => .error (.structural (.valueless n.name))

end TensorGraph
