import TensorGraph.Export
import TensorGraph.Import
import TensorGraph.Json.Printer
import TensorGraph.Log
import TensorGraph.Source
import TensorGraph.Text.Plain

/-!
# The command line

What a command line asks for, and what is printed.
-/

namespace TensorGraph

/-- What a command line asks for. -/
inductive Command where
  /-- Print the graph of a model. -/
  | inspect (path : String) (asJson checkFirst : Bool)
  /-- Check the order of a model's nodes. -/
  | check (path : String)
deriving DecidableEq, Repr

/-- A command with the level that it sets for the loggers; the empty one sets none. -/
structure Invocation where
  logLevel : String := ""
  command : Command
deriving DecidableEq, Repr

namespace Invocation

/-- Options and paths of a command, in any order; after two dashes there are paths alone. -/
structure Words where
  flags : List String := []
  paths : List String := []

def Words.ofArgs : List String → Words
  | [] => {}
  | "--" :: args => { paths := args }
  | arg :: args =>
    let ws := Words.ofArgs args
    if "-".isPrefixOf arg ∧ arg ≠ "-" then { ws with flags := arg :: ws.flags }
    else { ws with paths := arg :: ws.paths }

/-- The command that its name and the words after it spell. -/
def command? (name : String) (args : List String) : Option Command :=
  let ws := Words.ofArgs args
  match name, ws.paths with
  | "inspect", [path] =>
    if ws.flags.all (· ∈ ["--json", "--check-order"]) then
      some (.inspect path ("--json" ∈ ws.flags) ("--check-order" ∈ ws.flags))
    else none
  | "check", [path] => if ws.flags = [] then some (.check path) else none
  | _, _ => none

/-- The rest of a text after its beginning. -/
def after? (beginning s : String) : Option String :=
  if beginning.isPrefixOf s then some (String.ofList (s.toList.drop beginning.length)) else none

/-- Reads a command line. The level stands before the command; of two the later counts. Two dashes
may come between. -/
def ofArgs? (logLevel : String) : List String → Option Invocation
  | "--log-level" :: level :: args => ofArgs? level args
  | "--" :: name :: args => (command? name args).map fun command => { logLevel, command }
  | arg :: args =>
    match after? "--log-level=" arg with
    | some level => ofArgs? level args
    | none => (command? arg args).map fun command => { logLevel, command }
  | [] => none

end Invocation

/-- What a run prints, and its exit code. -/
structure Outcome where
  exitCode : Nat := 0
  out : String := ""
  err : String := ""
  /-- The error that ended the run without a report. -/
  failure : Option Error := none
deriving DecidableEq, Repr

namespace Outcome

/-- Lines on the output. -/
def lines (ls : List String) : Outcome := { out := plainText (String.join (ls.map (· ++ "\n"))) }

/-- The run that an error ends after some output. -/
def brokenBy (e : Error) (o : Outcome) : Outcome := { o with exitCode := 1, failure := some e }

/-- The report of an error that has a code. Any other error ends the run. -/
def ofError (e : Error) : Outcome :=
  match e.code? with
  | some code => { exitCode := 1, err := plainText s!"error [{code}]: {e.message}\n" }
  | none => brokenBy e {}

end Outcome

def commaList (names : List String) : String := ", ".intercalate names

/-- A node on a line: what it reads and what it writes. -/
def Node.line (n : Node) : String :=
  let inputs := n.inputs.map fun v => if v.name = "" then "<literal>" else v.name
  s!"{n.name} [{n.operator.name}]: ({commaList inputs}) -> ({commaList (n.outputs.map Value.name)})"

/-- An edge on a line. -/
def Edge.line (e : Edge) : String :=
  let readers := if e.readers = [] then "-" else commaList e.readers
  s!"  {e.value}: {e.producer} -> {readers}"

/-- The graph in lines: its inputs and outputs, and its nodes. -/
def Graph.lines (g : Graph) : List String :=
  [s!"graph: {g.name}", s!"inputs: {commaList (g.inputs.map Value.name)}",
    s!"outputs: {commaList (g.outputs.map Value.name)}"] ++ g.nodes.map Node.line

namespace Command

/-- Prints a graph: as JSON, or in lines with the edges at the end. -/
def print (g : Graph) (asJson : Bool) : Outcome :=
  if asJson then
    match g.toJson with
    | .ok v => .lines [v.text]
    | .error e => .brokenBy e {}
  else match g.edges with
    | .ok edges => .lines (g.lines ++ edges.map Edge.line)
    | .error e => .brokenBy e (.lines g.lines)

/-- Runs a command. -/
def run (read : String → Except OpenFailure (Option Onnx.ModelMessage)) : Command → Outcome
  | .inspect path asJson checkFirst =>
    match (Source.ofPath path).load read >>= (·.importGraph checkFirst) with
    | .error e => .ofError e
    | .ok g => print g asJson
  | .check path =>
    match (Source.ofPath path).load read >>= (·.checkOrder) with
    | .error e => .ofError e
    | .ok () => .lines [s!"{normalizePath path}: nodes are topologically sorted"]

end Command

/-- Runs a command after setting the level of the loggers, if it sets one. -/
def Invocation.run (read : String → Except OpenFailure (Option Onnx.ModelMessage))
    (i : Invocation) : Outcome :=
  if i.logLevel ≠ "" ∧ (Log.level? i.logLevel).isNone then .brokenBy (.fault .badValue) {}
  else i.command.run read

end TensorGraph
