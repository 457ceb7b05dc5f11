import TensorGraph.ElementType.Cell

/-!
# Spellings of cells

A cell is spelled by name, by a letter, by a letter with a size, or as a time with its step. All but
names may stand after a mark for the order of bytes.
-/

namespace TensorGraph

namespace Cell

def signed (bytes : Nat) : Cell := .number 'i' bytes

def unsigned (bytes : Nat) : Cell := .number 'u' bytes

def float (bytes : Nat) : Cell := .number 'f' bytes

def complex (bytes : Nat) : Cell := .number 'c' bytes

/-- The small formats that are known by name alone. -/
def smallFormats : List String :=
  ["bfloat16", "float8_e3m4", "float8_e4m3", "float8_e4m3b11fnuz", "float8_e4m3fn",
    "float8_e4m3fnuz", "float8_e5m2", "float8_e5m2fnuz", "float8_e8m0fnu", "float6_e2m3fn",
    "float6_e3m2fn", "float4_e2m1fn", "int2", "int4", "uint2", "uint4"]

/-- The names of cells. -/
def names : List (String × Cell) :=
  [("bool", boolean), ("bool_", boolean), ("int8", signed 1), ("byte", signed 1),
    ("int16", signed 2), ("short", signed 2), ("int32", signed 4), ("intc", signed 4),
    ("int64", signed 8), ("int", signed 8), ("int_", signed 8), ("long", signed 8),
    ("longlong", signed 8), ("intp", signed 8), ("uint8", unsigned 1), ("ubyte", unsigned 1),
    ("uint16", unsigned 2), ("ushort", unsigned 2), ("uint32", unsigned 4), ("uintc", unsigned 4),
    ("uint64", unsigned 8), ("uint", unsigned 8), ("ulong", unsigned 8), ("ulonglong", unsigned 8),
    ("uintp", unsigned 8), ("float16", float 2), ("half", float 2), ("float32", float 4),
    ("single", float 4), ("float64", float 8), ("double", float 8), ("float", float 8),
    ("float128", float 16), ("longdouble", float 16), ("complex64", complex 8),
    ("csingle", complex 8), ("complex128", complex 16), ("cdouble", complex 16),
    ("complex", complex 16), ("complex256", complex 32), ("clongdouble", complex 32),
    ("object", object), ("object_", object), ("str", text 0), ("str_", text 0), ("unicode", text 0),
    ("bytes", bytes 0), ("bytes_", bytes 0), ("a", bytes 0), ("void", raw 0),
    ("datetime64", time false {}), ("timedelta64", time true {})] ++
    smallFormats.map fun name => (name, named name)

/-- Cells by number, from zero on. -/
def numbered : List Cell :=
  [boolean, signed 1, unsigned 1, signed 2, unsigned 2, signed 4, unsigned 4, signed 8, unsigned 8,
    signed 8, unsigned 8, float 4, float 8, float 16, complex 8, complex 16, complex 32, object,
    bytes 0, text 0, raw 0, time false {}, time true {}, float 2]

/-- Single letters. -/
def singleLetters : List (Char × Cell) :=
  [('?', boolean), ('b', signed 1), ('h', signed 2), ('i', signed 4), ('l', signed 8),
    ('q', signed 8), ('p', signed 8), ('n', signed 8), ('B', unsigned 1), ('H', unsigned 2),
    ('I', unsigned 4), ('L', unsigned 8), ('Q', unsigned 8), ('P', unsigned 8), ('N', unsigned 8),
    ('e', float 2), ('f', float 4), ('d', float 8), ('g', float 16), ('F', complex 8),
    ('D', complex 16), ('G', complex 32), ('O', object), ('S', bytes 0), ('a', bytes 0),
    ('c', bytes 1), ('U', text 0), ('T', ragged), ('V', raw 0), ('M', time false {}),
    ('m', time true {})]

/-- The cell of a single character: a letter, or a control that numbers a cell. -/
def ofLetter? (c : Char) : Option Cell :=
  match numbered[c.toNat]? with
  | some cell => some cell
  | none => singleLetters.lookup c

/-- The largest size. -/
def maxSize : Nat := 2 ^ 31 - 1

/-- The cell of a letter with a size. -/
def ofSize? (letter : Char) (size : Nat) : Option Cell :=
  match letter, size with
  | 'S', n | 'a', n => some (bytes n)
  | 'U', n => some (text n)
  | 'V', n => some (raw n)
  | 'b', 1 => some boolean
  | 'O', 4 | 'O', 8 => some object
  | kind, n =>
    let sizes := match kind with
      | 'i' | 'u' => [1, 2, 4, 8]
      | 'f' => [2, 4, 8, 16]
      | 'c' => [8, 16, 32]
      | _ => []
    if n ∈ sizes then some (number kind n) else none

/-- Reads a letter with a size, which may have white space and a sign before its digits, or no
digits at all. None if the text goes on after that. -/
def ofSizedLetter? (letter : Char) (cs : List Char) : Except Error (Option Cell) :=
  let h := Signed.read true cs
  if h.value < 0 ∨ maxSize < h.value then wrongType
  else if h.rest ≠ [] then .ok none
  else if letter = 'U' ∧ maxSize / 4 < h.value then wrongType
  else .ok (ofSize? letter h.value.toNat)

/-- Reads a date or a span of time: the letter of its kind with its size, or its name, and a step
after it. None if the text begins otherwise. -/
def ofTimeText? (cs : List Char) : Option (Except Error Cell) :=
  let beginnings := [("M8", false), ("m8", true), ("datetime64", false), ("timedelta64", true)]
  (beginnings.find? fun b => b.1.toList.isPrefixOf cs).map fun (beginning, span) =>
    (TimeStep.ofText (cs.drop beginning.length)).map (time span)

end Cell

namespace OrderedCell

/-- Takes the mark for the order of bytes off; `true` is the reverse order. -/
def order : List Char → Bool × List Char
  | '>' :: cs => (true, cs)
  | '<' :: cs | '=' :: cs | '|' :: cs => (false, cs)
  | cs => (false, cs)

/-- Reads the cell that a text without commas spells. -/
def ofText (s : String) : Except Error OrderedCell :=
  let (reversed, cs) := order s.toList
  let named : Except Error OrderedCell :=
    match Cell.names.lookup s with
    | some cell => .ok (ofCell false cell)
    | none => wrongType
  match Cell.ofTimeText? cs with
  | some cell => cell.map (ofCell reversed)
  | none =>
    match cs with
    | [] => wrongType
    | [letter] =>
      match Cell.ofLetter? letter with
      | some cell => .ok (ofCell reversed cell)
      | none => named
    | letter :: rest => do
      match ← Cell.ofSizedLetter? letter rest with
      | some cell => return ofCell reversed cell
      | none => named

end OrderedCell

end TensorGraph
