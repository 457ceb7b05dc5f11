import TensorGraph.Power

/-!
# Binary floating-point formats

What the bit patterns of a format stand for, and rounding to nearest.
-/

namespace TensorGraph.Binary

/-- Which bit patterns of a format stand for no finite number. -/
inductive Specials where
  /-- A full exponent field: infinity over a zero fraction, not a number over any other. -/
  | ieee
  /-- All bits below the sign set is not a number. There is no infinity. -/
  | topNan
  /-- The pattern of minus zero is not a number. There is no infinity. -/
  | zeroNan
  /-- Every pattern is a number. -/
  | none
  /-- The top pattern is not a number, and there is neither a sign nor a fraction: every other
  pattern is a power of two. -/
  | powers
deriving DecidableEq, Repr

/-- A format: as a rule a sign bit, an exponent field and a fraction field, from the top down. -/
structure Format where
  name : String
  exponentBits : Nat
  fractionBits : Nat
  bias : Nat
  specials : Specials := .ieee
deriving DecidableEq, Repr

namespace Format

def binary16 : Format := { name := "float16", exponentBits := 5, fractionBits := 10, bias := 15 }

def binary32 : Format := { name := "float32", exponentBits := 8, fractionBits := 23, bias := 127 }

def binary64 : Format := { name := "float64", exponentBits := 11, fractionBits := 52, bias := 1023 }

/-- The number of bits. -/
def width (f : Format) : Nat :=
  (if f.specials = .powers then 0 else 1) + f.exponentBits + f.fractionBits

end Format

/-- What a bit pattern stands for. -/
inductive Number where
  | nan
  | infinite (negative : Bool)
  /-- The value `mantissa * 2 ^ exponent`, or its opposite. -/
  | finite (negative : Bool) (mantissa : Nat) (exponent : Int)
deriving DecidableEq, Repr

/-- The number that the low bits of `bits` stand for. -/
def Format.decode (f : Format) (bits : Nat) : Number :=
  let fraction := bits % 2 ^ f.fractionBits
  let exponent := bits / 2 ^ f.fractionBits % 2 ^ f.exponentBits
  let negative := bits / 2 ^ (f.fractionBits + f.exponentBits) % 2 = 1
  let full := exponent = 2 ^ f.exponentBits - 1
  let finite : Number :=
    if exponent = 0 then .finite negative fraction (1 - f.bias - f.fractionBits)
    else .finite negative (2 ^ f.fractionBits + fraction) (exponent - f.bias - f.fractionBits)
  match f.specials with
  | .ieee => if full then (if fraction = 0 then .infinite negative else .nan) else finite
  | .topNan => if full ∧ fraction = 2 ^ f.fractionBits - 1 then .nan else finite
  | .zeroNan => if negative ∧ exponent = 0 ∧ fraction = 0 then .nan else finite
  | .none => finite
  | .powers => if full then .nan else .finite false 1 (exponent - f.bias)

/-- The quotient `m / 2 ^ k` rounded to the nearest natural number, a tie to the even one. -/
def roundShift (m k : Nat) : Nat :=
  let q := m / 2 ^ k
  let r := 2 * (m % 2 ^ k)
  if r < 2 ^ k then q else if 2 ^ k < r then q + 1 else q + q % 2

theorem roundShift_zero (m : Nat) : roundShift m 0 = m := by
  simp [roundShift, Nat.mod_one]

/-- The pattern of infinity in a format with infinities. -/
def Format.infinity (f : Format) : Nat := (2 ^ f.exponentBits - 1) * 2 ^ f.fractionBits

/-- The pattern of the nearest number of a format with infinities, ties to the even pattern; a value
past the largest finite one by half a step or more gives infinity. -/
def Format.encode (f : Format) (x : Number) : Nat :=
  let signed (negative : Bool) (bits : Nat) :=
    if negative then 2 ^ (f.exponentBits + f.fractionBits) + bits else bits
  match x with
  | .nan => f.infinity + 2 ^ (f.fractionBits - 1)
  | .infinite negative => signed negative f.infinity
  | .finite negative m e =>
    if m = 0 then signed negative 0 else
    let least : Int := 1 - f.bias
    let top : Int := max (m.log2 + e) least
    let step : Int := top - f.fractionBits
    let rounded := if step ≤ e then m * 2 ^ (e - step).toNat else roundShift m (step - e).toNat
    -- a carry out of the fraction lands in the exponent field, where it belongs
    let bits := (top - least).toNat * 2 ^ f.fractionBits + rounded
    signed negative (min bits f.infinity)

end TensorGraph.Binary
