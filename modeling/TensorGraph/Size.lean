import TensorGraph.Attribute
import TensorGraph.Binary.Spelling
import TensorGraph.Product
import TensorGraph.Text.Quoted

/-!
# Sizes

The sizes of axes, and their number. As a rule a size is an integer, and the arithmetic of sizes is
that of the integers (`add_whole`, `sub_whole`, `mul_whole`, `less_whole`). A file that counts with
a floating-point number makes the size one too; a size in text or in a list is kept, but fits no
other.
-/

namespace TensorGraph

/-- The size of an axis, or a number of axes. -/
inductive Size where
  | whole (i : Int)
  | real (x : Double)
  /-- What a file gives in the place of a number. -/
  | odd (v : Attribute)
deriving DecidableEq, Repr

namespace Size

instance : Coe Int Size := ⟨whole⟩

instance (n : Nat) : OfNat Size n := ⟨whole n⟩

instance : Inhabited Size := ⟨0⟩

def ofNat (n : Nat) : Size := whole n

/-- The size as a floating-point number. An integer past all of them is refused. -/
def toDouble : Size → Except Error Double
  | whole i =>
    let x := Double.ofInt i
    if x.floor?.isNone then .error (.fault .overflow) else .ok x
  | real x => .ok x
  | odd _ => wrongType

/-- An operation on two sizes: on integers, or else on floating-point numbers. -/
def combine (onInts : Int → Int → Int) (onDoubles : Double → Double → Double) :
    Size → Size → Except Error Size
  | whole a, whole b => .ok (whole (onInts a b))
  | a, b => do return real (onDoubles (← a.toDouble) (← b.toDouble))

def add : Size → Size → Except Error Size := combine (· + ·) Double.add

def sub : Size → Size → Except Error Size := combine (· - ·) Double.sub

def mul : Size → Size → Except Error Size := combine (· * ·) Double.mul

def neg : Size → Except Error Size
  | whole a => .ok (whole (-a))
  | real x => .ok (real (.ofNumber x.number.neg))
  | odd _ => wrongType

@[simp] theorem add_whole (a b : Int) : (whole a).add (whole b) = .ok (whole (a + b)) := rfl

@[simp] theorem sub_whole (a b : Int) : (whole a).sub (whole b) = .ok (whole (a - b)) := rfl

@[simp] theorem mul_whole (a b : Int) : (whole a).mul (whole b) = .ok (whole (a * b)) := rfl

@[simp] theorem neg_whole (a : Int) : (whole a).neg = .ok (whole (-a)) := rfl

/-- The quotient rounded down. -/
def floorDiv (a b : Size) : Except Error Size :=
  match a, b with
  | whole i, whole j =>
    if j = 0 then .error (.fault .divisionByZero) else .ok (whole (Int.fdiv i j))
  | a, b => do
    let x ← a.toDouble
    let y ← b.toDouble
    if y.isZero then throw (.fault .divisionByZero)
    return real (x.floorDiv y)

/-- Whether the size `a` is a whole multiple of `b`. -/
def isMultipleOf (a b : Size) : Except Error Bool :=
  match a, b with
  | whole i, whole j => if j = 0 then .error (.fault .divisionByZero) else .ok (i % j = 0)
  | a, b => do
    let x ← a.toDouble
    let y ← b.toDouble
    if y.isZero then throw (.fault .divisionByZero)
    return x.isMultipleOf y

/-- The number that a size is; none, if it is odd. -/
def number : Size → Binary.Number
  | whole i => .finite (i < 0) i.natAbs 0
  | real x => x.number
  | odd _ => .nan

/-- Whether two sizes are equal as numbers. -/
def equals : Size → Size → Bool
  | whole a, whole b => a = b
  | odd v, odd w => v = w
  | a, b => a.number.compare? b.number = some .eq

/-- How two sizes compare; not at all if one of them is not a number. Odd ones cannot be asked. -/
def compare? : Size → Size → Except Error (Option Ordering)
  | whole a, whole b => .ok (some (compare a b))
  | odd _, _ | _, odd _ => wrongType
  | a, b => .ok (a.number.compare? b.number)

/-- Whether the size `a` is below `b`. -/
def less (a b : Size) : Except Error Bool := (a.compare? b).map fun o => o = some .lt

/-- Whether the size `a` is at most `b`. -/
def atMost (a b : Size) : Except Error Bool :=
  (a.compare? b).map fun o => o = some .lt ∨ o = some .eq

/-- The larger of two sizes; of equal ones the first. -/
def larger (a b : Size) : Except Error Size := do if ← a.less b then return b else return a

/-- The smaller of two sizes; of equal ones the first. -/
def smaller (a b : Size) : Except Error Size := do if ← b.less a then return b else return a

@[simp] theorem equals_whole (a b : Int) : (whole a).equals (whole b) = decide (a = b) := rfl

@[simp] theorem less_whole (a b : Int) : (whole a).less (whole b) = .ok (decide (a < b)) := by
  simp [less, compare?, Except.map, Int.compare_eq_lt]

@[simp] theorem atMost_whole (a b : Int) : (whole a).atMost (whole b) = .ok (decide (a ≤ b)) := by
  simp only [atMost, compare?, Except.map, Option.some.injEq, Int.compare_eq_lt, Int.compare_eq_eq]
  congr 1
  exact decide_eq_decide.2 (by omega)

/-- The sum of sizes. -/
def sum (sizes : List Size) : Except Error Size := sizes.foldlM add 0

/-- The integer part of a size. -/
def toInt : Size → Except Error Int
  | whole i => .ok i
  | real x => (Scalar.float x).toInt
  | odd _ => badValue

/-- The size as a place among others. -/
def index : Size → Except Error Int
  | whole i => .ok i
  | _ => wrongType

/-- The size as a number of entries to list: none, if it is negative. The number must fit a word. -/
def count (size : Size) : Except Error Nat := do
  let i ← size.index
  if 2 ^ 63 ≤ i then throw (.fault .overflow)
  return i.toNat

/-- The size as a number of entries to list. Where a list of `held` entries is, as many fit once
more. -/
def countBeside (size : Size) (held : Nat) : Except Error Nat := do
  let i ← size.index
  if i ≤ held then return i.toNat else size.count

/-- The integer that the size is equal to. -/
def integer? : Size → Option Int
  | whole i => some i
  | real x => x.toInt?
  | odd _ => none

/-- Whether an integer fits a signed word of 64 bits. -/
def isSigned (i : Int) : Bool := -2 ^ 63 ≤ i ∧ i < 2 ^ 63

/-- Whether an integer fits a word of 64 bits, signed or not. -/
def isWord (i : Int) : Bool := -2 ^ 63 ≤ i ∧ i < 2 ^ 64

/-- The integer part of a size, in a signed word of 64 bits. -/
def toWord (size : Size) : Except Error Int := do
  let i ← size.toInt
  if isSigned i then return i else throw (.fault .overflow)

/-- The product of sizes. Sizes that fit signed words are multiplied in them, and sizes that all
need an unsigned word in those; where the two meet, and where one is a floating-point number, in
double precision. If a size fits no word, the product is exact. -/
def product (sizes : List Size) : Except Error Int := do
  if sizes.any fun | .odd _ => true | _ => false then wrongType
  let ints := sizes.filterMap fun | .whole i => some i | _ => none
  if ints.any (! isWord ·) then (← sizes.foldlM mul 1).toInt
  else if ints.length = sizes.length ∧ ints.all isSigned then return wrappedProduct ints
  else if ints.length = sizes.length ∧ ints.all (! isSigned ·) then
    return ints.foldl (fun p d => p * d % 2 ^ 64) 1
  else
    let factors ← sizes.mapM toDouble
    (real (factors.foldl Double.mul (.ofInt 1))).toInt

/-- The size as messages show it, inside a list or on its own. -/
def quoted : Size → String
  | whole i => toString i
  | real x => x.text "nan" "inf"
  | odd (.string s) => Quoted.quote s
  | odd (.bytes bs) => Quoted.quoteBytes bs
  | odd (.ints is) => listText (is.map toString)
  | odd (.floats xs) => listText (xs.map (Double.text "nan" "inf"))
  | odd (.strings ss) => listText (ss.map Quoted.quote)
  | odd _ => ""
where
  listText (items : List String) : String := "[" ++ ", ".intercalate items ++ "]"

/-- The size as messages show it on its own. -/
def text : Size → String
  | odd (.string s) => s
  | size => size.quoted

/-- Sizes as messages show them. -/
def listText (sizes : List Size) : String := quoted.listText (sizes.map quoted)

end Size

end TensorGraph
