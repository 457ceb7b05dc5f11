import TensorGraph.Onnx.Message
import TensorGraph.Onnx.Schema
import TensorGraph.Text.Quoted
import TensorGraph.Text.Utf8

/-!
# Messages from fields

Of a field that comes twice the later value stays, lists grow, and parts that are messages merge.
Fields that are not known, or not of the expected kind, are skipped, once the whole file is known to
be well formed.
-/

namespace TensorGraph.Onnx

open Wire Binary

/-- Adds the fields that bytes hold to a message. -/
def mergeFields {α : Type} (add : α → Field → Option α) (m : α) (bs : List UInt8) : Option α :=
  (fields? maxDepth bs).bind fun fs => fs.foldlM add m

/-- The integers of a repeated field: one, or a run of them packed together. -/
def repeatedVarints? : Payload → Option (List Nat)
  | .varint v => some [v]
  | .bytes bs => varints? bs
  | _ => some []

/-- The single-precision numbers of a repeated field. -/
def repeatedSingles? : Payload → Option (List Double)
  | .word32 w => some [.ofPattern .binary32 w]
  | .bytes bs => (words? 4 bs).map (·.map (.ofPattern .binary32))
  | _ => some []

/-- The double-precision numbers of a repeated field. -/
def repeatedDoubles? : Payload → Option (List Double)
  | .word64 w => some [.ofPattern .binary64 w]
  | .bytes bs => (words? 8 bs).map (·.map (.ofPattern .binary64))
  | _ => some []

/-- A name in a message. Bytes that are not text are shown in quotes, and differ from every text
that has a use as a name. -/
def text (bs : List UInt8) : String := (Utf8.decode? bs).getD (Quoted.quoteBytes bs)

namespace TensorMessage

def add (m : TensorMessage) (f : Field) : Option TensorMessage :=
  match f.number, f.payload with
  | 1, p => (repeatedVarints? p).map fun vs => { m with dims := m.dims ++ vs.map toInt64 }
  | 2, .varint v => some { m with dataType := toInt32 v }
  | 3, .bytes _ => some { m with isSegment := true }
  | 4, p => (repeatedSingles? p).map fun xs => { m with floats := m.floats ++ xs }
  | 5, p => (repeatedVarints? p).map fun vs => { m with int32s := m.int32s ++ vs.map toInt32 }
  | 6, .bytes bs => some { m with strings := m.strings ++ [bs] }
  | 7, p => (repeatedVarints? p).map fun vs => { m with int64s := m.int64s ++ vs.map toInt64 }
  | 8, .bytes bs => some { m with name := text bs }
  | 9, .bytes bs => some { m with raw := some bs }
  | 10, p => (repeatedDoubles? p).map fun xs => { m with doubles := m.doubles ++ xs }
  | 11, p => (repeatedVarints? p).map fun vs => { m with uint64s := m.uint64s ++ vs }
  | _, _ => some m

end TensorMessage

namespace SparseMessage

def add (m : SparseMessage) (f : Field) : Option SparseMessage :=
  match f.number, f.payload with
  | 1, .bytes bs => (mergeFields TensorMessage.add m.values bs).map fun t => { m with values := t }
  | 2, .bytes bs => (mergeFields TensorMessage.add (m.indices.getD {}) bs).map fun t =>
    { m with indices := some t }
  | 3, p => (repeatedVarints? p).map fun vs => { m with dims := m.dims ++ vs.map toInt64 }
  | _, _ => some m

end SparseMessage

namespace Dimension

/-- A size and a symbol take each other's place. -/
def add (d : Dimension) (f : Field) : Option Dimension :=
  match f.number, f.payload with
  | 1, .varint v => some (.size (toInt64 v))
  | 2, .bytes bs => some (.symbol (text bs))
  | _, _ => some d

end Dimension

namespace ValueMessage

def addDimension (m : ValueMessage) (f : Field) : Option ValueMessage :=
  match f.number, f.payload with
  | 1, .bytes bs => (mergeFields Dimension.add .unknown bs).map fun d =>
    { m with dims := m.dims ++ [d] }
  | _, _ => some m

/-- Adds a field of a tensor's type. -/
def addTensorType (m : ValueMessage) (f : Field) : Option ValueMessage :=
  match f.number, f.payload with
  | 1, .varint v => some { m with elementType := toInt32 v }
  | 2, .bytes bs => mergeFields addDimension m bs
  | _, _ => some m

/-- The fields of a type other than a tensor's. -/
def otherTypes : List Nat := [4, 5, 7, 8, 9]

/-- Adds a field of a type. Another type takes the place of a tensor's. -/
def addType (m : ValueMessage) (f : Field) : Option ValueMessage :=
  match f.number, f.payload with
  | 1, .bytes bs => mergeFields addTensorType m bs
  | k, .bytes _ => if k ∈ otherTypes then some { name := m.name } else some m
  | _, _ => some m

def add (m : ValueMessage) (f : Field) : Option ValueMessage :=
  match f.number, f.payload with
  | 1, .bytes bs => some { m with name := text bs }
  | 2, .bytes bs => mergeFields addType m bs
  | _, _ => some m

end ValueMessage

/-- The kind that a file numbers so; none if the number is not known. -/
def AttributeKind.ofCode? (code : Int) : Option AttributeKind :=
  match code with
  | 1 => some .float
  | 2 => some .int
  | 3 => some .string
  | 4 => some .tensor
  | 6 => some .floats
  | 7 => some .ints
  | 8 => some .strings
  | 11 => some .sparse
  | _ => if 0 ≤ code ∧ code ≤ 14 then some .other else none

namespace AttributeMessage

def add (m : AttributeMessage) (f : Field) : Option AttributeMessage :=
  match f.number, f.payload with
  | 1, .bytes bs => some { m with name := text bs }
  | 2, .word32 w => some { m with float := .ofPattern .binary32 w }
  | 3, .varint v => some { m with int := toInt64 v }
  | 4, .bytes bs => some { m with string := bs }
  | 5, .bytes bs => (mergeFields TensorMessage.add m.tensor bs).map fun t => { m with tensor := t }
  | 7, p => (repeatedSingles? p).map fun xs => { m with floats := m.floats ++ xs }
  | 8, p => (repeatedVarints? p).map fun vs => { m with ints := m.ints ++ vs.map toInt64 }
  | 9, .bytes bs => some { m with strings := m.strings ++ [bs] }
  | 20, .varint v => some { m with kind := (AttributeKind.ofCode? (toInt32 v)).getD m.kind }
  | 22, .bytes bs => (mergeFields SparseMessage.add m.sparse bs).map fun s => { m with sparse := s }
  | _, _ => some m

end AttributeMessage

namespace NodeMessage

def add (m : NodeMessage) (f : Field) : Option NodeMessage :=
  match f.number, f.payload with
  | 1, .bytes bs => some { m with inputs := m.inputs ++ [text bs] }
  | 2, .bytes bs => some { m with outputs := m.outputs ++ [text bs] }
  | 3, .bytes bs => some { m with name := text bs }
  | 4, .bytes bs => some { m with operator := text bs }
  | 5, .bytes bs => (mergeFields AttributeMessage.add {} bs).map fun a =>
    { m with attributes := m.attributes ++ [a] }
  | _, _ => some m

end NodeMessage

namespace ModelMessage

/-- Adds a field of a graph. -/
def addToGraph (m : ModelMessage) (f : Field) : Option ModelMessage :=
  match f.number, f.payload with
  | 1, .bytes bs => (mergeFields NodeMessage.add {} bs).map fun n =>
    { m with nodes := m.nodes ++ [n] }
  | 2, .bytes bs => some { m with name := text bs }
  | 5, .bytes bs => (mergeFields TensorMessage.add {} bs).map fun t =>
    { m with initializers := m.initializers ++ [t] }
  | 11, .bytes bs => (mergeFields ValueMessage.add {} bs).map fun v =>
    { m with inputs := m.inputs ++ [v] }
  | 12, .bytes bs => (mergeFields ValueMessage.add {} bs).map fun v =>
    { m with outputs := m.outputs ++ [v] }
  | _, _ => some m

def add (m : ModelMessage) (f : Field) : Option ModelMessage :=
  match f.number, f.payload with
  | 7, .bytes bs => mergeFields addToGraph m bs
  | _, _ => some m

/-- The model that bytes hold. -/
def decode? (bs : List UInt8) : Option ModelMessage :=
  if wellFormed (maxDepth + 1) .model bs then mergeFields add {} bs else none

end ModelMessage

end TensorGraph.Onnx
