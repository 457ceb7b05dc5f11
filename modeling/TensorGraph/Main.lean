import TensorGraph.Command

/-!
# The program

Reads the file that the command line names, and prints what the command gives.
-/

open TensorGraph

/-- Why a file could not be opened. -/
def openFailure : IO.Error → OpenFailure
  | .inappropriateType .. => .directory
  | _ => .missing

/-- The path that a command reads. -/
def TensorGraph.Command.path : Command → String
  | .inspect path _ _ => normalizePath path
  | .check path => normalizePath path

/-- What a file holds. -/
def readModel (path : String) : IO (Except OpenFailure (Option Onnx.ModelMessage)) := do
  try
    let content ← IO.FS.readBinFile path
    return .ok (Onnx.ModelMessage.decode? content.toList)
  catch e => return .error (openFailure e)

def main (args : List String) : IO UInt32 := do
  match Invocation.ofArgs? "" args with
  | none =>
    IO.eprintln "usage: [--log-level LEVEL] inspect [--json] [--check-order] PATH | check PATH"
    return 2
  | some i =>
    let content ← readModel i.command.path
    let outcome := i.run fun _ => content
    IO.print outcome.out
    IO.eprint outcome.err
    return outcome.exitCode.toUInt32
