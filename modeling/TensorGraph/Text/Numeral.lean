import TensorGraph.Power
import TensorGraph.Text.Blank

/-!
# Numerals

Decimal digits of any script, single underscores between digits, an optional sign, white space
around.
-/

namespace TensorGraph.Numeral

/-- The code points of the digits zero; the nine after each are the other digits of its script
(Unicode 14). -/
def zeros : List Nat :=
  [0x30, 0x660, 0x6f0, 0x7c0, 0x966, 0x9e6, 0xa66, 0xae6, 0xb66, 0xbe6, 0xc66, 0xce6, 0xd66, 0xde6,
    0xe50, 0xed0, 0xf20, 0x1040, 0x1090, 0x17e0, 0x1810, 0x1946, 0x19d0, 0x1a80, 0x1a90, 0x1b50,
    0x1bb0, 0x1c40, 0x1c50, 0xa620, 0xa8d0, 0xa900, 0xa9d0, 0xa9f0, 0xaa50, 0xabf0, 0xff10, 0x104a0,
    0x10d30, 0x11066, 0x110f0, 0x11136, 0x111d0, 0x112f0, 0x11450, 0x114d0, 0x11650, 0x116c0,
    0x11730, 0x118e0, 0x11950, 0x11c50, 0x11d50, 0x11da0, 0x16a60, 0x16ac0, 0x16b50, 0x1d7ce,
    0x1d7d8, 0x1d7e2, 0x1d7ec, 0x1d7f6, 0x1e140, 0x1e2f0, 0x1e950, 0x1fbf0]

/-- The value of a decimal digit. -/
def digit? (c : Char) : Option Nat :=
  (zeros.find? fun z => z ≤ c.toNat && c.toNat < z + 10).map (c.toNat - ·)

/-- A run of digits at the head of a text. -/
structure Digits where
  value : Nat
  count : Nat
  rest : List Char

/-- Extends a run of digits; an underscore must stand between two digits. -/
def Digits.extend (value count : Nat) : List Char → Digits
  | '_' :: c :: cs =>
    match digit? c with
    | some d => extend (10 * value + d) (count + 1) cs
    | none => ⟨value, count, '_' :: c :: cs⟩
  | c :: cs =>
    match digit? c with
    | some d => extend (10 * value + d) (count + 1) cs
    | none => ⟨value, count, c :: cs⟩
  | [] => ⟨value, count, []⟩

/-- The longest run of digits at the head of a text. -/
def digits (cs : List Char) : Digits :=
  match cs with
  | [] => ⟨0, 0, []⟩
  | c :: cs' =>
    match digit? c with
    | some d => Digits.extend d 1 cs'
    | none => ⟨0, 0, cs⟩

/-- Takes a sign off; `true` is minus. -/
def sign : List Char → Bool × List Char
  | '-' :: cs => (true, cs)
  | '+' :: cs => (false, cs)
  | cs => (false, cs)

/-- The most digits that an integer may have, zeros at its front among them. -/
def maxDigits : Nat := 4300

/-- The integer that a text spells. -/
def integer? (s : String) : Option Int :=
  let (negative, cs) := sign (trimBlanks s.toList)
  let d := digits cs
  if d.count ≠ 0 ∧ d.count ≤ maxDigits ∧ d.rest = [] then
    some (if negative then -d.value else d.value)
  else none

/-- A number in decimal notation, or one of the special values. -/
inductive Real where
  | nan
  | infinite (negative : Bool)
  /-- The value `digits * 10 ^ exponent`, or its opposite. -/
  | decimal (negative : Bool) (digits : Nat) (exponent : Int)
deriving DecidableEq, Repr

/-- Reads `e`, a sign and digits, if the text goes on so. -/
def exponent? : List Char → Option Int
  | [] => some 0
  | c :: cs =>
    if c = 'e' ∨ c = 'E' then
      let (negative, cs) := sign cs
      let d := digits cs
      if d.count ≠ 0 ∧ d.rest = [] then some (if negative then -d.value else d.value) else none
    else none

/-- The real number that a text spells. -/
def real? (s : String) : Option Real :=
  let (negative, cs) := sign (trimBlanks s.toList)
  let word := String.ofList (cs.map Char.toLower)
  if word = "inf" ∨ word = "infinity" then some (.infinite negative)
  else if word = "nan" then some .nan
  else
    let whole := digits cs
    let part := match whole.rest with
      | '.' :: r => digits r
      | r => ⟨0, 0, r⟩
    if whole.count = 0 ∧ part.count = 0 then none
    else (exponent? part.rest).map fun e =>
      .decimal negative (whole.value * 10 ^ part.count + part.value) (e - part.count)

end TensorGraph.Numeral
