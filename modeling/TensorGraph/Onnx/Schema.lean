import TensorGraph.Onnx.Wire

/-!
# The make-up of model files

Which fields of a message are messages in turn, and which are runs of numbers. A file is read only
if all its parts are well formed, also those that the importer has no use for.
-/

namespace TensorGraph.Onnx

open Wire

/-- A kind of message. -/
inductive MessageKind where
  | model
  | graph
  | node
  | nodeAttribute
  | tensor
  | sparseTensor
  | segment
  | valueInfo
  | type
  | tensorType
  | sequenceType
  | mapType
  | shape
  | dimension
  | annotation
  | function
  | training
  | placement
  | sharding
  | shardedAxis
  | indexGroup
  /-- A message without messages or runs of numbers in it. -/
  | flat
deriving DecidableEq, Repr

/-- What the bytes of a field hold. -/
inductive Content where
  | message (kind : MessageKind)
  | varints
  | words (size : Nat)
  | plain
deriving DecidableEq, Repr

namespace MessageKind

/-- What the bytes of the fields of a message hold, for the fields where they hold more than text or
data. -/
def contents : MessageKind → List (Nat × Content)
  | model => [(7, .message graph), (8, .message flat), (14, .message flat),
      (20, .message training), (25, .message function), (26, .message flat)]
  | graph => [(1, .message node), (5, .message tensor), (11, .message valueInfo),
      (12, .message valueInfo), (13, .message valueInfo), (14, .message annotation),
      (15, .message sparseTensor), (16, .message flat)]
  | node => [(5, .message nodeAttribute), (9, .message flat), (10, .message placement)]
  | nodeAttribute => [(5, .message tensor), (6, .message graph), (7, .words 4), (8, .varints),
      (10, .message tensor), (11, .message graph), (14, .message type), (15, .message type),
      (22, .message sparseTensor), (23, .message sparseTensor)]
  | tensor => [(1, .varints), (3, .message segment), (4, .words 4), (5, .varints), (7, .varints),
      (10, .words 8), (11, .varints), (13, .message flat), (16, .message flat)]
  | sparseTensor => [(1, .message tensor), (2, .message tensor), (3, .varints)]
  | valueInfo => [(2, .message type), (4, .message flat)]
  | type => [(1, .message tensorType), (4, .message sequenceType), (5, .message mapType),
      (7, .message flat), (8, .message tensorType), (9, .message sequenceType)]
  | tensorType => [(2, .message shape)]
  | sequenceType => [(1, .message type)]
  | mapType => [(2, .message type)]
  | shape => [(1, .message dimension)]
  | annotation => [(2, .message flat)]
  | function => [(7, .message node), (9, .message flat), (11, .message nodeAttribute),
      (12, .message valueInfo), (14, .message flat)]
  | training => [(1, .message graph), (2, .message graph), (3, .message flat), (4, .message flat)]
  | placement => [(2, .message sharding)]
  | sharding => [(2, .varints), (3, .message indexGroup), (4, .message shardedAxis)]
  | shardedAxis => [(2, .message flat)]
  | indexGroup => [(2, .varints)]
  | segment | dimension | flat => []

/-- What the bytes of a field hold. -/
def content (k : MessageKind) (number : Nat) : Content := (k.contents.lookup number).getD .plain

end MessageKind

/-- Whether bytes hold a message of the given kind, with at most `depth` messages inside one
another, itself among them. -/
def wellFormed : Nat → MessageKind → List UInt8 → Bool
  | 0, _, _ => false
  | depth + 1, kind, bs =>
    match fields? depth bs with
    | none => false
    | some fields => fields.all fun f =>
      match f.payload with
      | .bytes part =>
        match kind.content f.number with
        | .message k => wellFormed depth k part
        | .varints => (varints? part).isSome
        | .words size => (words? size part).isSome
        | .plain => true
      | _ => true

/-- How deep messages may stand inside a model. -/
def maxDepth : Nat := 100

end TensorGraph.Onnx
