import TensorGraph.ElementType.TimeUnit
import TensorGraph.ElementType

/-!
# Cells

What an array may hold at a place, wider than the element types of graphs, and how messages show it.
-/

namespace TensorGraph

/-- What an array holds at each place. -/
inductive Cell where
  | boolean
  /-- A number of a kind, which is a letter, in a number of bytes. -/
  | number (kind : Char) (bytes : Nat)
  /-- A value of any kind. -/
  | object
  /-- A number of bytes. Zero stands for any number, here and below. -/
  | bytes (size : Nat)
  /-- A number of characters. -/
  | text (size : Nat)
  /-- Text of any length. -/
  | ragged
  | raw (size : Nat)
  /-- A date or, if `span`, a span of time. -/
  | time (span : Bool) (step : TimeStep)
  /-- A small number in a format known by its name. -/
  | named (name : String)
deriving DecidableEq, Repr

namespace Cell

/-- The number of bytes. -/
def size : Cell → Nat
  | boolean => 1
  | number _ n => n
  | object | time _ _ => 8
  | bytes n | raw n => n
  | text n => 4 * n
  | ragged => 16
  | named name => if name = "bfloat16" then 2 else 1

/-- Whether the cell is of a kind with a size, and the size is left open. -/
def isUnsized (c : Cell) : Bool := c.size = 0

/-- Whether the order of bytes makes a difference. -/
def isOrdered : Cell → Bool
  | number _ n => n ≠ 1
  | text _ | time _ _ => true
  | _ => false

/-- The letter of a date or a span of time. -/
def timeLetter (span : Bool) : String := if span then "m" else "M"

/-- The element type of arrays of such cells, in either order of bytes. -/
def element? : Cell → Option ElementType
  | boolean => some .bool
  | number 'i' 1 => some .int8
  | number 'i' 4 => some .int32
  | number 'i' 8 => some .int64
  | number 'u' 1 => some .uint8
  | number 'f' 2 => some .float16
  | number 'f' 4 => some .float32
  | number 'f' 8 => some .float64
  | object | bytes _ | text _ => some .string
  | _ => none

/-- The word for a kind of numbers. -/
def kindName : Char → String
  | 'i' => "int"
  | 'u' => "uint"
  | 'f' => "float"
  | _ => "complex"

/-- The cell by its name. -/
def name : Cell → String
  | boolean => "bool"
  | number kind n => s!"{kindName kind}{8 * n}"
  | object => "object"
  | bytes n => s!"|S{n}"
  | text n => s!"<U{n}"
  | ragged => "StringDType()"
  | raw n => s!"|V{n}"
  | time span step => (if span then "timedelta64" else "datetime64") ++ step.text
  | named name => name

/-- A size after the letter of its kind; a size left open is not written. -/
def sizedLetter (letter : String) (size : Nat) : String :=
  if size = 0 then letter else s!"{letter}{size}"

/-- The cell by letters, without a mark for the order of bytes. -/
def letters : Cell → String
  | boolean => "?"
  | number kind n => s!"{kind}{n}"
  | object => "O"
  | bytes n => sizedLetter "S" n
  | text n => sizedLetter "U" n
  | ragged => "T"
  | raw n => sizedLetter "V" n
  | time span step => s!"{timeLetter span}8{step.text}"
  | named name => name

end Cell

/-- A cell with the order of its bytes. -/
structure OrderedCell where
  cell : Cell
  /-- The byte of most weight first. -/
  reversed : Bool := false
deriving DecidableEq, Repr

namespace OrderedCell

/-- The cell in the given order; where the order makes no difference it is not kept. -/
def ofCell (reversed : Bool) (c : Cell) : OrderedCell := ⟨c, reversed && c.isOrdered⟩

/-- The cell as messages show it: by its name or, in reverse order, by letters after a mark. -/
def shown (c : OrderedCell) : String :=
  if c.reversed then ">" ++ c.cell.letters else c.cell.name

/-- The cell as a part of another: by letters in quotes, with a mark for the order where it makes a
difference. -/
def brief (c : OrderedCell) : String :=
  match c.cell with
  | .named name => name
  | cell =>
    let mark := if c.reversed then ">" else if cell.isOrdered then "<" else ""
    "'" ++ mark ++ cell.letters ++ "'"

end OrderedCell

end TensorGraph
