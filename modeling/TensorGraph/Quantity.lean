import TensorGraph.Size

/-!
# Numbers in attributes

A number that an attribute gives: on its own, or as the only element of an array. The elements of an
array are counted in its layout, where integers wrap and fractions are rounded.
-/

namespace TensorGraph

/-- A number as an attribute gives it. -/
inductive Quantity where
  | number (s : Size)
  /-- The only element of an array, which is `bare` if it has no axes. -/
  | element (layout : Layout) (bare : Bool) (x : Scalar)
deriving DecidableEq, Repr

namespace Quantity

/-- The number that an attribute gives. -/
def ofAttribute : Attribute → Except Error Quantity
  | .int i => .ok (number (.whole i))
  | .float x => .ok (number (.real x))
  | .array a =>
    match a.data with
    | [x] => .ok (element a.layout (a.shape = []) x)
    | .text _ :: _ => wrongType
    | _ => badValue
  | _ => wrongType

/-- Whether an integer fits the elements of a layout. -/
def fits (layout : Layout) (i : Int) : Bool :=
  match layout with
  | .signed width => -2 ^ (width - 1) ≤ i ∧ i < 2 ^ (width - 1)
  | .unsigned width => 0 ≤ i ∧ i < 2 ^ width
  | _ => true

/-- An integer in the elements of a layout, wrapped. -/
def wrap (layout : Layout) (i : Int) : Int :=
  match layout with
  | .signed width => Int.bmod i (2 ^ width)
  | .unsigned width => i % 2 ^ width
  | _ => i

/-- A size as a number of the given format. -/
def inFormat (f : Binary.Format) (s : Size) : Except Error Double := (·.round f) <$> s.toDouble

/-- How the number compares with a size; not at all if one of them is none. Complex numbers compare
by their real parts, and if those are equal by their imaginary parts. -/
def compare? (q : Quantity) (s : Size) : Except Error (Option Ordering) :=
  match q with
  | number a => a.compare? s
  | element layout _ x =>
    match layout, x with
    | _, .bool b => Size.compare? (if b then 1 else 0) s
    | _, .int i => Size.compare? (.whole i) s
    | .float f, .float x => do return x.compare? (← inFormat f s)
    | .complex f, .complex re im => do
      let first := re.compare? (← inFormat f s)
      return if im.isNan then none
        else if first = some .eq then im.compare? (.ofInt 0) else first
    | _, _ => wrongType

/-- Whether the number is below zero. -/
def isNegative (q : Quantity) : Except Error Bool := (q.compare? 0).map fun o => o = some .lt

/-- Whether the number is at least a size. -/
def reaches (q : Quantity) (s : Size) : Except Error Bool :=
  (q.compare? s).map fun o => o = some .gt ∨ o = some .eq

/-- An operation on the number and a size: in the layout of the element, where the size must fit. -/
def combine (onInts : Int → Int → Int) (onDoubles : Double → Double → Double) (q : Quantity)
    (s : Size) : Except Error Quantity :=
  match q with
  | number a => number <$> a.combine onInts onDoubles s
  | element layout bare x =>
    match layout, x, s with
    | .object, .int i, s => number <$> (Size.whole i).combine onInts onDoubles s
    | .object, _, _ => wrongType
    | .bool, .bool b, s => onInteger (.signed 64) bare (if b then 1 else 0) s
    | layout, .int i, s => onInteger layout bare i s
    | .float f, .float x, s => do
      return element layout bare (.float ((onDoubles x (← inFormat f s)).round f))
    | .complex f, .complex re im, s => do
      return element layout bare (.complex ((onDoubles re (← inFormat f s)).round f) im)
    | _, _, _ => wrongType
where
  onInteger (layout : Layout) (bare : Bool) (i : Int) : Size → Except Error Quantity
    | .whole j =>
      if fits layout j then .ok (element layout bare (.int (wrap layout (onInts i j))))
      else .error (.fault .overflow)
    | .real y => .ok (element (.float .binary64) bare (.float (onDoubles (.ofInt i) y)))
    | .odd _ => wrongType

def add : Quantity → Size → Except Error Quantity := combine (· + ·) Double.add

/-- A negative number counts from the end of `rank` places. -/
def normalize (rank : Size) (q : Quantity) : Except Error Quantity := do
  if ← q.isNegative then q.add rank else return q

/-- The difference of two numbers. -/
def sub : Quantity → Quantity → Except Error Quantity
  | q, number s => q.combine (· - ·) Double.sub s
  | number s, q => q.combine (fun i j => j - i) (fun x y => y.sub x) s
  | element layout bare (.int i), element layout' bare' (.int j) =>
    let wide := if layout = layout' then layout else .signed 64
    .ok (element wide (bare && bare') (.int (wrap wide (i - j))))
  | element _ bare x, element _ bare' y => do
    let difference ← (← toSize x).combine (· - ·) Double.sub (← toSize y)
    return element (.float .binary64) (bare && bare') (.float (← difference.toDouble))
where
  toSize : Scalar → Except Error Size
    | .int i => .ok (.whole i)
    | .bool b => .ok (if b then 1 else 0)
    | .float x => .ok (.real x)
    | _ => wrongType

/-- The place, for selecting an entry: an integer on its own, or in an array without axes. -/
def index : Quantity → Except Error Int
  | number s => s.index
  | element (.signed _) true (.int i) | element (.unsigned _) true (.int i) => .ok i
  | _ => wrongType

/-- The number as a size. An array must have no axes. -/
def toSize : Quantity → Except Error Size
  | number s => .ok s
  | element _ true (.int i) => .ok (.whole i)
  | element _ true (.float x) => .ok (.real x)
  | _ => wrongType

/-- Whether a size is a whole multiple of the number. An array without axes or with one element
counts in its layout, in which every integer is a multiple of zero, and no fraction is. -/
def divides (q : Quantity) (s : Size) : Except Error Bool :=
  match q with
  | number d => s.isMultipleOf d
  | element layout _ x =>
    match layout, x, s with
    | .object, .int i, s => s.isMultipleOf (.whole i)
    | .object, _, _ | .complex _, _, _ => wrongType
    | .bool, _, .whole j => if fits (.signed 64) j then .ok true else .error (.fault .overflow)
    | layout, .int i, .whole j =>
      if fits layout j then .ok (i = 0 ∨ j % i = 0) else .error (.fault .overflow)
    | .float f, .float x, s => do return (← inFormat f s).isMultipleOf x
    | _, .int i, .real y => .ok (y.isMultipleOf (.ofInt i))
    | _, .bool b, .real y => .ok (y.isMultipleOf (.ofInt (if b then 1 else 0)))
    | _, _, _ => wrongType

end Quantity

end TensorGraph
