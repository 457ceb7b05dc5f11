import TensorGraph.Error
import TensorGraph.Binary.Format

/-!
# Element types

The types of the elements of tensors, and the layouts in which arrays store their elements. The
type of a combination does not depend on the order of the operands (`promote_comm`).
-/

namespace TensorGraph

open Binary

/-- The type of a tensor's elements. -/
inductive ElementType where
  | float32
  | float64
  | float16
  | int8
  | int32
  | int64
  | uint8
  | bool
  | string
deriving DecidableEq, Repr, Inhabited

/-- How an array stores its elements. -/
inductive Layout where
  | bool
  | signed (width : Nat)
  | unsigned (width : Nat)
  | float (format : Format)
  /-- Pairs of a real and an imaginary part. -/
  | complex (part : Format)
  /-- Elements of any kind: text, as a rule. -/
  | object
deriving DecidableEq, Repr

namespace Layout

def name : Layout → String
  | bool => "bool"
  | signed width => s!"int{width}"
  | unsigned width => s!"uint{width}"
  | float format => format.name
  | complex part => s!"complex{2 * part.width}"
  | object => "object"

/-- The number of bits of one element; none for elements of any kind. -/
def width? : Layout → Option Nat
  | bool => some 8
  | signed width => some width
  | unsigned width => some width
  | float format => some format.width
  | complex part => some (2 * part.width)
  | object => none

/-- The number of bytes that one element takes up, where elements do not share bytes. -/
def size (l : Layout) : Nat :=
  match l.width? with
  | some width => (width + 7) / 8
  | none => 8

/-- The element type of arrays stored so. -/
def element? : Layout → Option ElementType
  | bool => some .bool
  | signed 8 => some .int8
  | signed 32 => some .int32
  | signed 64 => some .int64
  | unsigned 8 => some .uint8
  | float format =>
    if format = .binary16 then some .float16
    else if format = .binary32 then some .float32
    else if format = .binary64 then some .float64
    else none
  | object => some .string
  | _ => none

/-- The element type of arrays stored so, or the refusal of the layout. -/
def element (l : Layout) : Except Error ElementType :=
  match l.element? with
  | some t => .ok t
  | none => .error (.unsupportedLayout l.name)

end Layout

namespace ElementType

/-- Every element type. -/
def all : List ElementType :=
  [float32, float64, float16, int8, int32, int64, uint8, bool, string]

def name : ElementType → String
  | float32 => "float32"
  | float64 => "float64"
  | float16 => "float16"
  | int8 => "int8"
  | int32 => "int32"
  | int64 => "int64"
  | uint8 => "uint8"
  | bool => "bool"
  | string => "string"

def ofName? (s : String) : Option ElementType := all.find? (·.name = s)

/-- The layout of arrays with such elements. -/
def layout : ElementType → Layout
  | float32 => .float .binary32
  | float64 => .float .binary64
  | float16 => .float .binary16
  | int8 => .signed 8
  | int32 => .signed 32
  | int64 => .signed 64
  | uint8 => .unsigned 8
  | bool => .bool
  | string => .object

theorem element?_layout (t : ElementType) : t.layout.element? = some t := by
  cases t <;> decide

/-- The layout of sums of elements of two number types: the wider of two of a sort, the float of a
float and a small integer, double precision where a wide integer meets a float, and a signed integer
of twice the width where signed and unsigned bytes meet. -/
def promotedLayout (a b : ElementType) : Layout :=
  if a = b then a.layout
  else if a = bool then b.layout
  else if b = bool then a.layout
  else
    let has t := a = t ∨ b = t
    let wide := has int32 ∨ has int64
    let floating := has float16 ∨ has float32
    if has float64 ∨ (wide ∧ floating) then .float .binary64
    else if has float32 then .float .binary32
    else if has float16 then .float .binary16
    else if has int64 then .signed 64
    else if has int32 then .signed 32
    else .signed 16

/-- The element type of a combination of two operands: text if either is text, otherwise the type of
the promoted layout, if the graph has it. -/
def promote (a b : ElementType) : Except Error ElementType :=
  if a = string ∨ b = string then .ok string else (promotedLayout a b).element

theorem promote_comm (a b : ElementType) : promote a b = promote b a := by
  cases a <;> cases b <;> rfl

theorem promote_self (a : ElementType) : promote a a = .ok a := by
  cases a <;> rfl

end ElementType

end TensorGraph
