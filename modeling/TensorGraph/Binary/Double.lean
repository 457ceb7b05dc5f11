import TensorGraph.Binary.Arithmetic
import TensorGraph.Text.Numeral

/-!
# Double-precision numbers

Double-precision numbers as bit patterns, with the conversions and the arithmetic that the graph
needs. Every result is the double nearest to the exact one.
-/

namespace TensorGraph

open Binary

/-- A double-precision number, by its bit pattern. -/
structure Double where
  bits : UInt64
deriving DecidableEq, Repr, Inhabited

namespace Double

/-- The number that the pattern stands for. -/
def number (x : Double) : Number := Format.binary64.decode x.bits.toNat

/-- The nearest double. -/
def ofNumber (n : Number) : Double := ⟨(Format.binary64.encode n).toUInt64⟩

/-- The value of a pattern of a format no wider than double precision. -/
def ofPattern (f : Format) (bits : Nat) : Double := ofNumber (f.decode bits)

/-- The nearest number of the format `f`, as a double. -/
def round (f : Format) (x : Double) : Double := ofPattern f (f.encode x.number)

def ofInt (i : Int) : Double := ofNumber (.finite (i < 0) i.natAbs 0)

/-- The double nearest to `digits * 10 ^ exponent`, or to its opposite. -/
def ofDecimal (negative : Bool) (digits : Nat) (exponent : Int) : Double :=
  if 0 ≤ exponent then
    -- past 10 ^ 400 every value but zero is infinite
    ofNumber (.finite negative (digits * 10 ^ (min exponent 400).toNat) 0)
  else
    -- past this many places every value rounds to zero
    let places := min (-exponent).toNat (digits.log2 + 400)
    ofNumber (.div (.finite negative digits 0) (.finite false (10 ^ places) 0))

def ofReal : Numeral.Real → Double
  | .nan => ofNumber .nan
  | .infinite negative => ofNumber (.infinite negative)
  | .decimal negative digits exponent => ofDecimal negative digits exponent

/-- Neither zero of the two signs is told from the other. -/
def isZero (x : Double) : Bool := x.number.isZero

/-- The greatest integer at most `x`, for a finite `x`. -/
def floor? (x : Double) : Option Int :=
  match x.number with
  | .finite negative m e =>
    let value : Int := if negative then -m else m
    some (if 0 ≤ e then value * 2 ^ e.toNat else Int.fdiv value (2 ^ (-e).toNat))
  | _ => none

def isNan (x : Double) : Bool := x.number = .nan

/-- The sign bit. -/
def isNegative (x : Double) : Bool := 2 ^ 63 ≤ x.bits.toNat

/-- The integer part of `x`, for a finite `x`. -/
def truncate? (x : Double) : Option Int :=
  match x.number with
  | .finite negative m e =>
    let value : Int := if negative then -m else m
    some (if 0 ≤ e then value * 2 ^ e.toNat else Int.tdiv value (2 ^ (-e).toNat))
  | _ => none

/-- The value of `x`, if it is an integer. -/
def toInt? (x : Double) : Option Int :=
  match x.number with
  | .finite negative m e =>
    let value : Int := if negative then -m else m
    if 0 ≤ e then some (value * 2 ^ e.toNat)
    else if m % 2 ^ (-e).toNat = 0 then some (Int.tdiv value (2 ^ (-e).toNat))
    else none
  | _ => none

def add (x y : Double) : Double := ofNumber (x.number.add y.number)

def sub (x y : Double) : Double := ofNumber (x.number.add y.number.neg)

def mul (x y : Double) : Double := ofNumber (x.number.mul y.number)

def compare? (x y : Double) : Option Ordering := x.number.compare? y.number

/-- Whether `x` is a whole multiple of `y`. Nothing is one of zero. -/
def isMultipleOf (x y : Double) : Bool := (x.number.rem y.number).isZero

/-- The greatest double that is an integer and at most `x`. -/
def floor (x : Double) : Double :=
  match x.number, x.floor? with
  | .finite true 0 _, _ => x
  | _, some i => ofInt i
  | _, none => x

/-- The quotient rounded down, for a `y` that is not zero: the remainder with the sign of `y` is
taken off before dividing, and what then remains of a fraction is rounded away. -/
def floorDiv (x y : Double) : Double :=
  let rest := x.number.rem y.number
  let quotient := ofNumber ((x.sub (ofNumber rest)).number.div y.number)
  let quotient := if ! rest.isZero && rest.isNegative != y.number.isNegative
    then quotient.sub (ofInt 1) else quotient
  if quotient.isZero then ofNumber (.finite (x.number.isNegative != y.number.isNegative) 0 0)
  else
    let below := quotient.floor
    if (quotient.sub below).compare? (ofDecimal false 5 (-1)) = some .gt then below.add (ofInt 1)
    else below

example : ofDecimal false 1 (-1) = ⟨0x3fb999999999999a⟩ := by decide +kernel

example : (ofDecimal false 1 (-1)).round .binary32 = ⟨0x3fb99999a0000000⟩ := by decide +kernel

end Double

end TensorGraph
