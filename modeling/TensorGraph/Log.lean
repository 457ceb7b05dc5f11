/-!
# Loggers

Levels and names of loggers.
-/

namespace TensorGraph.Log

/-- The names that a level can be set by. -/
def settableLevels : List (String × Int) :=
  [("CRITICAL", 50), ("FATAL", 50), ("ERROR", 40), ("WARN", 30), ("WARNING", 30), ("INFO", 20),
    ("DEBUG", 10), ("NOTSET", 0)]

/-- The level of the loggers if none is set. -/
def defaultLevel : Int := 30

/-- A letter as a capital, as far as the names of levels have it. -/
def capital (c : Char) : Char :=
  if c = 'ı' then 'I' else if c = 'ſ' then 'S' else c.toUpper

/-- The level that a name calls, in letters of either case. -/
def level? (name : String) : Option Int :=
  settableLevels.lookup (String.ofList (name.toList.map capital))

/-- The level that loggers heed where `level` has been set: zero means that none has. -/
def effectiveLevel (level : Int) : Int := if level = 0 then defaultLevel else level

/-- The text of a level. -/
def levelText (level : Int) : String :=
  match level with
  | 50 => "CRITICAL"
  | 40 => "ERROR"
  | 30 => "WARNING"
  | 20 => "INFO"
  | 10 => "DEBUG"
  | 0 => "NOTSET"
  | _ => s!"Level {level}"

/-- The name above all loggers. -/
def rootName : String := "onnxport"

/-- The name of a logger, which stands under the root. -/
def loggerName (name : String) : String :=
  if name = rootName ∨ (rootName ++ ".").isPrefixOf name then name else rootName ++ "." ++ name

end TensorGraph.Log
