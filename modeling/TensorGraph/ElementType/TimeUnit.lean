import TensorGraph.Error
import TensorGraph.Power
import TensorGraph.Text.Signed

/-!
# Steps of time

Dates and time spans count steps: a number of units, written in brackets. A step may be given as a
fraction of a unit, if it is a number of smaller ones.
-/

namespace TensorGraph

inductive TimeUnit where
  | year
  | month
  | week
  | day
  | hour
  | minute
  | second
  | milli
  | micro
  | nano
  | pico
  | femto
  | atto
  /-- No unit in particular. -/
  | generic
deriving DecidableEq, Repr

namespace TimeUnit

/-- How units are written; that of a millionth of a second in three ways, the first of them as it is
shown. -/
def symbols : List (String × TimeUnit) :=
  [("Y", year), ("M", month), ("W", week), ("D", day), ("h", hour), ("m", minute), ("s", second),
    ("ms", milli), ("us", micro), ("ns", nano), ("ps", pico), ("fs", femto), ("as", atto),
    ("\u03bcs", micro), ("\u00b5s", micro), ("generic", generic)]

/-- The unit as it is shown. -/
def symbol (u : TimeUnit) : String := ((symbols.find? (·.2 = u)).map Prod.fst).getD ""

/-- The smaller units that fractions are tried in, with how many of them make up the unit. The last
entry for a week stands for steps of zero years, which every fraction comes to. -/
def parts : TimeUnit → List (Int × TimeUnit)
  | year => [(12, month), (52, week), (365, day)]
  | month => [(4, week), (30, day), (720, hour)]
  | week => [(7, day), (168, hour), (10080, minute), (0, year)]
  | day => [(24, hour), (1440, minute), (86400, second)]
  | hour => [(60, minute), (3600, second)]
  | minute => [(60, second), (60000, milli)]
  | second => [(1000, milli), (1000000, micro)]
  | milli => [(1000, micro), (1000000, nano)]
  | micro => [(1000, nano), (1000000, pico)]
  | nano => [(1000, pico), (1000000, femto)]
  | pico => [(1000, femto), (1000000, atto)]
  | femto => [(1000, atto)]
  | atto | generic => []

end TimeUnit

/-- A number of units. -/
structure TimeStep where
  count : Int := 1
  unit : TimeUnit := .generic
deriving DecidableEq, Repr

namespace TimeStep

/-- The step in brackets; nothing if it has no unit. -/
def text (s : TimeStep) : String :=
  if s.unit = .generic then ""
  else if s.count = 1 then s!"[{s.unit.symbol}]"
  else s!"[{s.count}{s.unit.symbol}]"

/-- One part of a step that is divided into `parts`, in the first smaller unit that has it whole. -/
def divide (s : TimeStep) (parts : Int) : Except Error TimeStep :=
  if parts = 1 then .ok s
  else match s.unit.parts.find? fun p => parts ≠ 0 ∧ p.1.tmod parts = 0 with
    | some (number, unit) => .ok ⟨s.count * number.tdiv parts, unit⟩
    | none => badValue

/-- The largest count of units. -/
def maxCount : Nat := 2 ^ 31 - 1

/-- Reads a step from what follows an opening bracket: a count, a unit, and what it is divided by,
each but the unit optional. -/
def ofUnitText (cs : List Char) : Except Error TimeStep := do
  let inside := cs.takeWhile (· ≠ ']')
  if cs.drop inside.length ≠ [']'] then wrongType
  let count := Signed.read false inside
  if count.digits ≠ 0 ∧ (count.value < 0 ∨ maxCount < count.value) then wrongType
  let rest := if count.digits = 0 then inside else count.rest
  let name := rest.takeWhile (· ≠ '/')
  match TimeUnit.symbols.lookup (String.ofList name) with
  | none => wrongType
  | some unit =>
    let step : TimeStep := ⟨if count.digits = 0 then 1 else count.value, unit⟩
    match rest.drop name.length with
    | [] => return step
    | _ :: divisor =>
      let d := Signed.read false divisor
      if d.digits = 0 ∨ d.rest ≠ [] then wrongType
      -- a divisor that does not fit in a word of 64 bits counts as the nearest that does
      step.divide (Int.bmod (max (-2 ^ 63) (min d.value (2 ^ 63 - 1))) (2 ^ 32))

/-- Reads a step in brackets. Nothing at all stands for no unit in particular. -/
def ofText : List Char → Except Error TimeStep
  | [] => .ok {}
  | '[' :: cs => ofUnitText cs
  | _ => wrongType

end TimeStep

end TensorGraph
