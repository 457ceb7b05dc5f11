import TensorGraph.Binary.Decimal

/-!
# The text of numbers

The text of floating-point numbers: the fewest digits that read back.
-/

namespace TensorGraph

open Binary

namespace Decimal

/-- The same value without zeros at the end of its digits. -/
def strip (d : Decimal) : Decimal :=
  let zeros := ((toString d.digits).toList.reverse.takeWhile (· = '0')).length
  if d.digits = 0 then d else ⟨d.digits / 10 ^ zeros, d.exponent + zeros⟩

/-- An exponent, with its sign and two digits at least. -/
def exponentText (e : Int) : String :=
  let digits := toString e.natAbs
  "e" ++ (if e < 0 then "-" else "+") ++ (if digits.length < 2 then "0" else "") ++ digits

/-- A positive number. Numbers from a ten-thousandth to below ten to the sixteenth are written with
all their places and always a point; the others with one digit, further digits after a point if
there are any, and an exponent. -/
def text (d : Decimal) : String :=
  let d := d.strip
  let digits := (toString d.digits).toList
  let point : Int := digits.length + d.exponent
  let zeros (n : Int) := List.replicate n.toNat '0'
  if -4 < point ∧ point ≤ 16 then
    if 0 < d.exponent ∨ d.exponent = 0 then String.ofList (digits ++ zeros d.exponent ++ ['.', '0'])
    else if 0 < point then
      String.ofList (digits.take point.toNat ++ '.' :: digits.drop point.toNat)
    else String.ofList ('0' :: '.' :: zeros (-point) ++ digits)
  else
    let fraction := if digits.length = 1 then [] else '.' :: digits.drop 1
    String.ofList (digits.take 1 ++ fraction) ++ exponentText (point - 1)

end Decimal

/-- The text of a floating-point number, with the given words for those that are none or
infinite. -/
def Double.text (none infinity : String) (x : Double) : String :=
  match x.number with
  | .nan => none
  | .infinite negative => (if negative then "-" else "") ++ infinity
  | .finite negative m e =>
    (if negative then "-" else "") ++ if m = 0 then "0.0" else (Decimal.shortest m e).text

end TensorGraph
