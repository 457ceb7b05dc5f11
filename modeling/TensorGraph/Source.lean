import TensorGraph.Onnx.Decode
import TensorGraph.Error
import TensorGraph.Text.Quoted

/-!
# Sources of models

A model comes from a file, from bytes, or is at hand.
-/

namespace TensorGraph

/-- A path as it is written: without empty steps, steps that stay where they are, and slashes at the
end. Two slashes at the start stay two. -/
def normalizePath (path : String) : String :=
  let slashes := (path.toList.takeWhile (· = '/')).length
  let root := if slashes = 0 then "" else if slashes = 2 then "//" else "/"
  let steps := (path.splitOn "/").filter fun step => step ≠ "" && step ≠ "."
  let written := root ++ "/".intercalate steps
  if written = "" then "." else written

/-- Where a model comes from. -/
inductive Source where
  | model (m : Onnx.ModelMessage)
  | bytes (bs : List UInt8)
  /-- A file, by its path, with the path as messages show it. -/
  | file (path shown : String)
  /-- Something of a kind that is no source. -/
  | other (kind : String)
deriving Repr

namespace Source

/-- A file whose path messages show as it is written. -/
def ofPath (path : String) : Source := .file (normalizePath path) (normalizePath path)

/-- The source as messages show it. -/
def describe : Source → String
  | model m => s!"<model {m.name}>"
  | bytes bs => s!"<{bs.length} bytes>"
  | file _ shown => shown
  | other kind => kind

/-- The model of a source. `read` gives what a file holds: a model, or bytes that are none. -/
def load (read : String → Except OpenFailure (Option Onnx.ModelMessage)) (s : Source) :
    Except Error Onnx.ModelMessage :=
  let parsed (m : Option Onnx.ModelMessage) : Except Error Onnx.ModelMessage :=
    match m with
    | some m => .ok m
    | none => .error (.loading (.malformed s.describe))
  match s with
  | model m => .ok m
  | bytes bs => parsed (Onnx.ModelMessage.decode? bs)
  | file path _ =>
    -- no file has a NUL in its path
    if '\x00' ∈ path.toList then badValue
    else match read path with
      | .ok m => parsed m
      | .error why => .error (.loading (.cannotOpen s.describe (Quoted.quote path) why))
  | other kind => .error (.loading (.unsupportedSource kind))

end Source

end TensorGraph
