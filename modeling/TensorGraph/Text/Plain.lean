/-!
# Plain text

Text for output that is not a terminal: without the sequences that steer one, and with one character
at the end of each line.
-/

namespace TensorGraph

/-- A character between the start of a control sequence and the letter that ends it. -/
def isParameter (c : Char) : Bool := c.isDigit || c = ';' || c = '?'

/-- What is left of the text after an escape character: a control sequence, which is a bracket,
parameters and a letter, is left out together with its escape. -/
def afterEscape (piece : String) : String :=
  let kept := "\x1b" ++ piece
  match piece.toList with
  | '[' :: sequence =>
    match sequence.dropWhile isParameter with
    | last :: rest => if last.isAlpha then String.ofList rest else kept
    | [] => kept
  | _ => kept

/-- The text without control sequences. -/
def withoutControls (s : String) : String :=
  match s.splitOn "\x1b" with
  | [] => s
  | first :: pieces => first ++ String.join (pieces.map afterEscape)

/-- The text for output that is not a terminal. -/
def plainText (s : String) : String := "\n".intercalate ((withoutControls s).splitOn "\r\n")

end TensorGraph
