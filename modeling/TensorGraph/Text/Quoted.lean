import TensorGraph.Text.Unseen

/-!
# Quoted text

Text in quotes for messages, on one line and with nothing unseen in it.
-/

namespace TensorGraph.Quoted

/-- The last `places` digits of a number in base sixteen. -/
def hexDigits (n : Nat) : Nat → List Char
  | 0 => []
  | places + 1 => hexDigits (n / 16) places ++ ["0123456789abcdef".toList.getD (n % 16) '0']

/-- A character between quotes of the kind `mark`. -/
def escape (mark c : Char) : List Char :=
  if c = mark ∨ c = '\\' then ['\\', c]
  else if c = '\n' then ['\\', 'n']
  else if c = '\r' then ['\\', 'r']
  else if c = '\t' then ['\\', 't']
  else if isUnseen c then
    if c.toNat < 0x100 then '\\' :: 'x' :: hexDigits c.toNat 2
    else if c.toNat < 0x10000 then '\\' :: 'u' :: hexDigits c.toNat 4
    else '\\' :: 'U' :: hexDigits c.toNat 8
  else [c]

/-- Single quotes, or double quotes around what has single ones and no double ones. -/
def markFor (cs : List Char) : Char := if '\'' ∈ cs ∧ '"' ∉ cs then '"' else '\''

/-- The text in quotes. -/
def quote (s : String) : String :=
  let mark := markFor s.toList
  String.ofList (mark :: s.toList.flatMap (escape mark) ++ [mark])

/-- A byte between quotes of the kind `mark`: past ASCII every byte is written by its number. -/
def escapeByte (mark : Char) (b : UInt8) : List Char :=
  if b < 0x80 then escape mark (Char.ofNat b.toNat) else '\\' :: 'x' :: hexDigits b.toNat 2

/-- Bytes in quotes, with a letter before them. -/
def quoteBytes (bs : List UInt8) : String :=
  let mark := markFor (bs.map fun b => Char.ofNat b.toNat)
  String.ofList ('b' :: mark :: bs.flatMap (escapeByte mark) ++ [mark])

end TensorGraph.Quoted
