import TensorGraph.Text.Numeral

/-!
# Signed integers at the head of a text

White space, a sign and ASCII digits at the start of a longer text. Each of them may be missing.
-/

namespace TensorGraph.Signed

/-- The white space of ASCII. -/
def isGap (c : Char) : Bool := c = ' ' || (9 ≤ c.toNat && c.toNat ≤ 13)

/-- What stands at the head of a text. -/
structure Head where
  value : Int
  /-- The number of digits. -/
  digits : Nat
  rest : List Char

/-- The number that ASCII digits spell. -/
def value (digits : List Char) : Nat := digits.foldl (fun n c => 10 * n + (c.toNat - '0'.toNat)) 0

/-- Reads white space, a sign, white space again if `gapAfterSign`, and digits. -/
def read (gapAfterSign : Bool) (cs : List Char) : Head :=
  let (negative, cs) := Numeral.sign (cs.dropWhile isGap)
  let cs := if gapAfterSign then cs.dropWhile isGap else cs
  let digits := cs.takeWhile Char.isDigit
  let magnitude : Int := value digits
  ⟨if negative then -magnitude else magnitude, digits.length, cs.dropWhile Char.isDigit⟩

example : (read true " + 12]".toList).value = 12 := by decide +kernel

end TensorGraph.Signed
