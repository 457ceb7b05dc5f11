import TensorGraph.Binary.Format

/-!
# Arithmetic

Sums, products, remainders and comparisons of the numbers that bit patterns stand for. All of them
are exact, so that a result is rounded once, when it gets a pattern. A quotient keeps more bits than
any format shows.
-/

namespace TensorGraph.Binary.Number

/-- The value `m * 2 ^ e`, or its opposite, in units of `2 ^ unit`, where `unit` is at most `e`. -/
def inUnits (unit : Int) (negative : Bool) (m : Nat) (e : Int) : Int :=
  let size : Int := m * 2 ^ (e - unit).toNat
  if negative then -size else size

def isNegative : Number → Bool
  | nan => false
  | infinite s => s
  | finite s _ _ => s

def isZero : Number → Bool
  | finite _ m _ => m = 0
  | _ => false

def neg : Number → Number
  | nan => nan
  | infinite s => infinite (! s)
  | finite s m e => finite (! s) m e

/-- The sum. Numbers of opposite values have the sum plus zero. -/
def add : Number → Number → Number
  | nan, _ | _, nan => nan
  | infinite s, infinite t => if s = t then infinite s else nan
  | infinite s, finite _ _ _ | finite _ _ _, infinite s => infinite s
  | finite s m e, finite t n f =>
    let unit := min e f
    let sum := inUnits unit s m e + inUnits unit t n f
    finite (if sum = 0 then s && t else sum < 0) sum.natAbs unit

def mul : Number → Number → Number
  | nan, _ | _, nan => nan
  | infinite s, infinite t => infinite (s != t)
  | infinite s, finite t n _ | finite t n _, infinite s => if n = 0 then nan else infinite (s != t)
  | finite s m e, finite t n f => finite (s != t) (m * n) (e + f)

/-- The quotient, of which the last bit stands for all that it leaves out. -/
def div : Number → Number → Number
  | nan, _ | _, nan | infinite _, infinite _ => nan
  | infinite s, finite t _ _ => infinite (s != t)
  | finite s _ _, infinite t => finite (s != t) 0 0
  | finite s m e, finite t n f =>
    if n = 0 then (if m = 0 then nan else infinite (s != t))
    else
      -- the quotient keeps seventy bits
      let shift := n.log2 + 70
      let scaled := m * 2 ^ shift
      let sticky := if scaled % n = 0 then 0 else 1
      finite (s != t) (2 * (scaled / n) + sticky) (e - f - shift - 1)

/-- What is left of the first number after taking off the second as often as it fits; it has the
sign of the first. -/
def rem : Number → Number → Number
  | nan, _ | _, nan | infinite _, _ => nan
  | x@(finite _ _ _), infinite _ => x
  | finite s m e, finite _ n f =>
    let unit := min e f
    let divisor := inUnits unit false n f
    if divisor = 0 then nan else finite s (inUnits unit false m e % divisor).natAbs unit

/-- How two numbers compare; not at all if one of them is none. The two zeros are equal. -/
def compare? : Number → Number → Option Ordering
  | nan, _ | _, nan => none
  | infinite s, infinite t => some (compare t s)
  | infinite s, finite _ _ _ => some (if s then .lt else .gt)
  | finite _ _ _, infinite s => some (if s then .gt else .lt)
  | finite s m e, finite t n f =>
    let unit := min e f
    some (compare (inUnits unit s m e) (inUnits unit t n f))

end TensorGraph.Binary.Number
