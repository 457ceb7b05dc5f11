import TensorGraph.ElementType.Spelling
import TensorGraph.Text.Blank

/-!
# Records

Cells that consist of others: blocks of equal cells, and records of fields, spelled as lists with
commas in which every item may have a repeat before it.
-/

namespace TensorGraph

/-- What a text spells: a cell, or cells put together. -/
inductive Spelling where
  | cell (c : OrderedCell)
  /-- Equal parts along axes of the given sizes. -/
  | block (part : Spelling) (shape : List Nat)
  | record (fields : List Spelling)
deriving Repr

namespace Spelling

/-- Sizes of axes in parentheses. -/
def showShape (shape : List Nat) : String :=
  match shape with
  | [n] => s!"({n},)"
  | shape => "(" ++ ", ".intercalate (shape.map toString) ++ ")"

mutual

/-- The spelling as a part of another. -/
def brief : Spelling → String
  | cell c => c.brief
  | block part shape => "(" ++ brief part ++ ", " ++ showShape shape ++ ")"
  | record fields => "[" ++ ", ".intercalate (briefFields 0 fields) ++ "]"

/-- The fields of a record by number, from `i` on. -/
def briefFields (i : Nat) : List Spelling → List String
  | [] => []
  | block part shape :: fields =>
    (s!"('f{i}', " ++ brief part ++ ", " ++ showShape shape ++ ")") :: briefFields (i + 1) fields
  | field :: fields => (s!"('f{i}', " ++ brief field ++ ")") :: briefFields (i + 1) fields

end

/-- The spelling as messages show it. -/
def shown : Spelling → String
  | cell c => c.shown
  | s => s.brief

mutual

/-- The number of bytes. -/
def size : Spelling → Nat
  | cell c => c.cell.size
  | block part shape => size part * shape.prod
  | record fields => sizes fields

/-- The number of bytes of all fields. -/
def sizes : List Spelling → Nat
  | [] => 0
  | field :: fields => size field + sizes fields

end

/-- How often an item of a list is repeated. -/
inductive Repeats where
  | once
  | count (n : Nat)
  | shape (dims : List Nat)
deriving DecidableEq, Repr

/-- The number that digits spell; only zero may begin with a zero. -/
def number? (cs : List Char) : Option Nat :=
  if cs = [] ∨ ¬ cs.all Char.isDigit ∨ (cs.head? = some '0' ∧ ¬ cs.all (· = '0')) then none
  else some (Signed.value cs)

/-- The text without the spaces at its ends. -/
def trimSpaces (cs : List Char) : List Char :=
  ((cs.dropWhile (· = ' ')).reverse.dropWhile (· = ' ')).reverse

/-- The parts of a text between commas. -/
def splitCommas (cs : List Char) : List (List Char) :=
  cs.foldr (fun c parts =>
    if c = ',' then [] :: parts
    else match parts with
      | part :: parts => (c :: part) :: parts
      | [] => [[c]]) [[]]

/-- A number, or numbers with commas, the last of which nothing need follow. -/
def numbers? (cs : List Char) : Option Repeats :=
  match (splitCommas cs).map trimSpaces with
  | [part] => (number? part).map .count
  | parts =>
    let parts := if parts.getLast? = some [] then parts.dropLast else parts
    (parts.mapM number?).map .shape

/-- Reads how often an item is repeated: numbers, in parentheses or not. -/
def Repeats.ofText (cs : List Char) : Except Error Repeats :=
  let bare := trimSpaces cs
  let inside := (bare.drop 1).dropLast
  let read :=
    if bare.head? = some '(' ∧ bare.getLast? = some ')' then
      if trimSpaces inside = [] then some (.shape []) else numbers? inside
    else if bare = [] then none else numbers? bare
  match read with
  | some r => .ok r
  | none => .error (.fault .badSyntax)

/-- An item of a list as it is spelled: a repeat, and what is repeated. -/
structure Spelled where
  repeats : List Char
  text : List Char

/-- An item of a list. -/
structure Item where
  repeats : Repeats
  text : List Char

def Spelled.toItem (s : Spelled) : Except Error Item := do
  return ⟨← if s.repeats = [] then pure .once else Repeats.ofText s.repeats, s.text⟩

/-- Takes a mark for the order of bytes off. -/
def takeMark : List Char → Option Char × List Char
  | '<' :: cs => (some '<', cs)
  | '>' :: cs => (some '>', cs)
  | '|' :: cs => (some '|', cs)
  | '=' :: cs => (some '=', cs)
  | cs => (none, cs)

/-- Takes one character off, if it is there. -/
def skip (c : Char) (cs : List Char) : List Char := if cs.head? = some c then cs.drop 1 else cs

/-- What follows a repeat: spaces, an opening parenthesis, digits, commas and spaces, a closing
parenthesis and spaces, all of them optional. -/
def afterRepeats (cs : List Char) : List Char :=
  let cs := skip '(' (cs.dropWhile (· = ' '))
  let cs := skip ')' (cs.dropWhile fun c => c = ' ' || c = ',' || c.isDigit)
  cs.dropWhile (· = ' ')

/-- What follows a name, and brackets after it if they hold no more than names, numbers and
commas. -/
def afterName (cs : List Char) : List Char :=
  let cs := cs.dropWhile fun c => c.isAlphanum || c = '.' || c = '?'
  match cs with
  | '[' :: inside =>
    match inside.dropWhile fun c => c.isAlphanum || c = '.' || c = ',' with
    | ']' :: rest => rest
    | _ => cs
  | _ => cs

/-- The mark of an item from the marks before and after its repeat, which must agree. Only the mark
for the reverse order is kept. -/
def joinMarks (before after : Option Char) : Except Error (List Char) :=
  let native (c : Char) := if c = '=' then '<' else c
  let mark := match before, after with
    | some a, some b => if native a = native b then some (some (native a)) else none
    | some a, none => some (some a)
    | none, b => some b
  match mark with
  | none => badValue
  | some mark => .ok (if mark = some '>' then ['>'] else [])

/-- Takes an item off the head of a text. -/
def takeSpelled (cs : List Char) : Except Error (Spelled × List Char) := do
  let (before, cs) := takeMark cs
  let rest := afterRepeats cs
  let repeats := cs.take (cs.length - rest.length)
  let (after, cs) := takeMark rest
  let rest := afterName cs
  let mark ← joinMarks before after
  return (⟨repeats, mark ++ cs.take (cs.length - rest.length)⟩, rest)

/-- White space, with the separators of information among it. -/
def isSpacing (c : Char) : Bool := isBlank c || (0x1C ≤ c.toNat && c.toNat ≤ 0x1F)

/-- What follows a comma with white space around it, or white space at the end of a text. -/
def afterComma? (cs : List Char) : Option (List Char) :=
  match cs.dropWhile isSpacing with
  | ',' :: rest => some (rest.dropWhile isSpacing)
  | _ => none

/-- The items of a text, and whether a comma stands between or after them. `limit` bounds their
number. -/
def takeItems : Nat → List Char → Except Error (List Item × Bool)
  | 0, _ => .ok ([], false)
  | _ + 1, [] => .ok ([], false)
  | limit + 1, cs => do
    let (spelled, rest) ← takeSpelled cs
    let next ← if rest.all isSpacing then pure none
      else match afterComma? rest with
        | some rest => pure (some rest)
        | none => badValue
    let item ← spelled.toItem
    match next with
    | none => return ([item], false)
    | some rest =>
      let (items, _) ← takeItems limit rest
      return (item :: items, true)

/-- The largest number of bytes, and of parts of a block. -/
def maxSize : Nat := Cell.maxSize

/-- The block of a part; a part that stands once is no block. -/
def ofShape (part : Spelling) (shape : List Nat) : Except Error Spelling :=
  if 64 < shape.length ∨ shape.any (maxSize < ·) ∨ maxSize < shape.prod ∨
      maxSize < part.size * shape.prod then badValue
  else .ok (block part shape)

/-- A part as often as `r` says. A cell whose size is left open takes a number as its size. -/
def repeated (part : Spelling) (r : Repeats) : Except Error Spelling :=
  let isOpen := match part with
    | record _ => false
    | part => part.size = 0
  match r with
  | .once => .ok part
  | .count n =>
    if isOpen then
      match part with
      | cell ⟨.bytes _, reversed⟩ =>
        if maxSize < n then badValue else .ok (cell ⟨.bytes n, reversed⟩)
      | cell ⟨.raw _, reversed⟩ => if maxSize < n then badValue else .ok (cell ⟨.raw n, reversed⟩)
      | cell ⟨.text _, reversed⟩ =>
        if maxSize / 4 < n then badValue else .ok (cell ⟨.text n, reversed⟩)
      | part => .ok part
    else if n = 1 then .ok part
    else part.ofShape [n]
  | .shape dims =>
    if isOpen then badValue
    else if dims = [] then .ok part
    else part.ofShape dims

/-- Whether a comma stands in a text after its first character and outside brackets; `depth` counts
the brackets that are open. -/
def hasComma (depth : Int) : List Char → Bool
  | [] => false
  | ',' :: cs => depth = 0 || hasComma depth cs
  | '[' :: cs => hasComma (depth + 1) cs
  | ']' :: cs => hasComma (depth - 1) cs
  | _ :: cs => hasComma depth cs

/-- Whether a text is read as items: it begins with a repeat, or has commas. -/
def isList (cs : List Char) : Bool :=
  let (mark, rest) := takeMark cs
  (rest.head?.map Char.isDigit).getD false ||
    (['(', ')'].isPrefixOf rest && (mark.isNone || 2 < rest.length)) || hasComma 0 (cs.drop 1)

/-- Reads what a text spells. The items of a list are read in turn; `depth` bounds the lists inside
one another. -/
def read : Nat → List Char → Except Error Spelling
  | 0, _ => wrongType
  | depth + 1, cs =>
    if ! isList cs then (OrderedCell.ofText (String.ofList cs)).map cell
    else do
      let (items, separated) ← takeItems cs.length cs
      let part (item : Item) : Except Error Spelling := do
        (← read depth item.text).repeated item.repeats
      if separated then return record (← items.mapM part)
      match items with
      | [⟨.once, _⟩] | [] => .error (.fault .noResult)
      | item :: _ => part item

/-- What a text spells. -/
def ofText (s : String) : Except Error Spelling := read (s.length + 1) s.toList

/-- The element type of arrays that hold what is spelled. -/
def element (s : Spelling) : Except Error ElementType :=
  match s with
  | cell ⟨c, _⟩ =>
    match c.element? with
    | some t => .ok t
    | none => .error (.unsupportedLayout s.shown)
  | s => .error (.unsupportedLayout s.shown)

end Spelling

/-- The element type of arrays whose cells are spelled so. -/
def ElementType.ofSpelling (s : String) : Except Error ElementType :=
  Spelling.ofText s >>= (·.element)

end TensorGraph
