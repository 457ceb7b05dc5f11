import TensorGraph.Literal
import TensorGraph.Table

/-!
# Attributes

The attributes of a node, and the readings that operators take of them. A reading of an attribute
that is not of a kind the operator asks for fails, or falls back, as each reading says.
-/

namespace TensorGraph

/-- The value of an attribute. -/
inductive Attribute where
  | int (i : Int)
  | ints (is : List Int)
  | float (x : Double)
  | floats (xs : List Double)
  | string (s : String)
  | strings (ss : List String)
  | array (a : Literal)
  | bytes (bs : List UInt8)
deriving DecidableEq, Repr

/-- The attributes of a node, by name. -/
abbrev Attributes := Table String Attribute

namespace Attribute

/-- The elements of a list, an array with axes, or a text; single numbers have none. -/
def items : Attribute → Except Error (List Attribute)
  | ints is => .ok (is.map int)
  | floats xs => .ok (xs.map float)
  | string s => .ok (s.toList.map fun c => string c.toString)
  | strings ss => .ok (ss.map string)
  | bytes bs => .ok (bs.map fun b => int b.toNat)
  | array a => if a.shape = [] then wrongType else .ok (a.parts.map array)
  | int _ | float _ => wrongType

/-- The number of elements. -/
def length (v : Attribute) : Except Error Nat := v.items.map List.length

/-- The attribute as an integer: fractions are cut off, text is read as a numeral, and an array must
have no axes. -/
def toInt : Attribute → Except Error Int
  | int i => .ok i
  | float x => (Scalar.float x).toInt
  | string s => (Scalar.text s).toInt
  | array a =>
    match a.shape, a.data with
    | [], [x] => x.toInt
    | _, _ => wrongType
  | _ => wrongType

/-- The elements as integers. -/
def toInts (v : Attribute) : Except Error (List Int) := do (← v.items).mapM toInt

/-- The elements of a list of integers, or of an empty list of any kind. -/
def intList? : Attribute → Option (List Int)
  | ints is => some is
  | floats [] | strings [] => some []
  | _ => none

/-- Whether the attribute counts as set: not zero, not empty. An array must have one element. -/
def isTrue : Attribute → Except Error Bool
  | int i => .ok (i ≠ 0)
  | float x => .ok (! x.isZero)
  | ints is => .ok (! is.isEmpty)
  | floats xs => .ok (! xs.isEmpty)
  | string s => .ok (s ≠ "")
  | strings ss => .ok (! ss.isEmpty)
  | bytes bs => .ok (! bs.isEmpty)
  | array a =>
    match a.single? with
    | some x => .ok x.isTrue
    | none => badValue

/-- Whether the attribute is the number `n`. An array must have one element. -/
def equals (n : Int) : Attribute → Except Error Bool
  | int i => .ok (i = n)
  | float x => .ok (x.toInt? = some n)
  | array a =>
    match a.single? with
    | some x => .ok (x.equals n)
    | none => badValue
  | _ => .ok false

/-- Whether the attribute is the text `s`. An array must have one element. -/
def isText (s : String) : Attribute → Except Error Bool
  | string t => .ok (t = s)
  | array a =>
    match a.single? with
    | some x => .ok (x = .text s)
    | none => badValue
  | _ => .ok false

end Attribute

end TensorGraph
