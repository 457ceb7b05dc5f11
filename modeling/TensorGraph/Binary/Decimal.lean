import TensorGraph.Binary.Double

/-!
# The shortest decimal of a double

The fewest decimal digits that read back to a double-precision number.
-/

namespace TensorGraph

open Binary

/-- The value `digits * 10 ^ exponent`. -/
structure Decimal where
  digits : Nat
  exponent : Int
deriving DecidableEq, Repr

namespace Decimal

/-- Compares `a * 10 ^ i` with `m * 2 ^ e`, exactly. -/
def compareScaled (a : Nat) (i : Int) (m : Nat) (e : Int) : Ordering :=
  compare (a * 10 ^ i.toNat * 2 ^ (-e).toNat) (m * 2 ^ e.toNat * 10 ^ (-i).toNat)

/-- Whether `d` lies among the reals that round to the double `m * 2 ^ e`: between the halfway
points to its two neighbours, those included if `m` is even. Below a power of two the neighbour is
half as far away, except at the bottom of the range. -/
def readsBack (m : Nat) (e : Int) (d : Decimal) : Bool :=
  let narrow := m = 2 ^ 52 ∧ -1074 < e
  let low := if narrow then 4 * m - 1 else 4 * m - 2
  let even := m % 2 = 0
  let fromLow := compareScaled d.digits d.exponent low (e - 2)
  let fromHigh := compareScaled d.digits d.exponent (4 * m + 2) (e - 2)
  (fromLow = .gt ∨ (even ∧ fromLow = .eq)) ∧ (fromHigh = .lt ∨ (even ∧ fromHigh = .eq))

/-- The least `k` with `m * 2 ^ e < 10 ^ k`, for a positive `m`. -/
def scale (m : Nat) (e : Int) : Int :=
  -- the estimate from the binary logarithm is low by three at most
  let estimate := ((m.log2 + e) * 30103).fdiv 100000
  (([0, 1, 2].map (estimate + ·)).find? fun k => compareScaled 1 k m e = .gt).getD (estimate + 3)

/-- The point of the grid `10 ^ exponent` that reads back and is nearest to `m * 2 ^ e`, a tie going
to the even one. Only the two points around the value can be it. -/
def onGrid? (m : Nat) (e exponent : Int) : Option Decimal :=
  let num := m * 2 ^ e.toNat * 10 ^ (-exponent).toNat
  let den := 2 ^ (-e).toNat * 10 ^ exponent.toNat
  let below := num / den
  let low : Decimal := ⟨below, exponent⟩
  let high : Decimal := ⟨below + 1, exponent⟩
  match readsBack m e low, readsBack m e high with
  | false, false => none
  | true, false => some low
  | false, true => some high
  | true, true =>
    match compare (2 * num) ((2 * below + 1) * den) with
    | .lt => some low
    | .gt => some high
    | .eq => some (if below % 2 = 0 then low else high)

/-- The fewest digits that read back to `m * 2 ^ e`, for a positive `m`: the coarsest grid with a
point that does. Seventeen digits are enough. -/
def shortest (m : Nat) (e : Int) : Decimal :=
  let k := scale m e
  ((List.range 17).findSome? fun (n : Nat) => onGrid? m e (k - (n + 1))).getD
    (if 0 ≤ e then ⟨m * 2 ^ e.toNat, 0⟩ else ⟨m * 5 ^ (-e).toNat, e⟩)

end Decimal

end TensorGraph
