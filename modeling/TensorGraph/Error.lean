import TensorGraph.Operator

/-!
# Errors

Why an import, a typing rule or a check fails. Every cause has one constructor; its wording and
its code are in one place. Exactly the faults carry no code (`coded_iff`).
-/

namespace TensorGraph

/-- The operand types or attributes of a node do not fit its operator. Sizes and ranks are kept as
messages show them. -/
inductive TypingError where
  | broadcastArity (operator : Operator)
  | broadcastMismatch (a b : String)
  | selectArity
  | castArity
  | castTarget
  | fillLength
  | shapeArity
  | reshapeArity
  | reshapeTarget
  | reshapeInferred
  | unsqueezeAxes
  | squeezeAxes
  | transposeArity
  | transposePerm
  | concatArity
  | concatRank
  | concatAxis
  | matMulArity
  | matMulDims (a b : String)
  | linearWeight
  | listAttribute (name : String)
  | convArity
  | convRank (operator : Operator) (rank : String)
  | convGroups
  | poolArity (operator : Operator)
  | poolKernel (operator : Operator)
  | poolRank (operator : Operator) (rank : Nat)
deriving DecidableEq, Repr

/-- The file breaks the naming contract of its values. -/
inductive NamingError where
  /-- A node reads a declared graph output. -/
  | outputAsOperand (name : String)
  /-- A declared graph output was asked for its new name. -/
  | outputUnnamed (name : String)
  | noEntry (name : String)
  /-- The name of a graph input is fixed. -/
  | inputRenamed (name : String)
  /-- An earlier node has read the name that `producer` writes. -/
  | producedLate (name producer : String)
  | producedTwice (name : String)
  /-- A node output was asked for where a graph boundary was meant. -/
  | notBoundary (name : String)
deriving DecidableEq, Repr

/-- The node list is malformed. -/
inductive StructureError where
  /-- The node at `consumer` reads what the later node at `producer` writes. -/
  | outOfOrder (name : String) (producer consumer : Nat)
  | producedTwice (name : String) (second first : Nat)
  /-- A Constant node carries no literal. -/
  | valueless (node : String)
deriving DecidableEq, Repr

/-- Why a file cannot be opened. -/
inductive OpenFailure where
  | missing
  | directory
  | notDirectory
  | nameTooLong
deriving DecidableEq, Repr

/-- The model cannot be read. -/
inductive LoadError where
  | unsupportedSource (kind : String)
  | cannotOpen (source quotedPath : String) (why : OpenFailure)
  | malformed (source : String)
deriving DecidableEq, Repr

/-- A value does not suit the operation it was used in. These carry no code and no text. -/
inductive Fault where
  | indexOutOfRange
  | wrongType
  | badValue
  | unknownKey
  | divisionByZero
  | badText
  | overflow
  | badSyntax
  | noResult
  | outOfMemory
  | arrayTooLarge
deriving DecidableEq, Repr

/-- Why something fails. -/
inductive Error where
  /-- An array layout that has no element type. -/
  | unsupportedLayout (layout : String)
  /-- An element type that the graph does not have. -/
  | unsupportedElement (name : String)
  | unsupportedOperator (name : String)
  | typing (e : TypingError)
  | naming (e : NamingError)
  | structural (e : StructureError)
  | loading (e : LoadError)
  | fault (f : Fault)
deriving DecidableEq, Repr

namespace TypingError

def code : TypingError → String
  | broadcastArity _ => "EBROADCAST_ARITY"
  | broadcastMismatch _ _ => "EBROADCAST"
  | selectArity => "EWHERE_ARITY"
  | castArity => "ECAST_ARITY"
  | castTarget => "ECAST_ATTR"
  | fillLength => "ECOS_SHAPE"
  | shapeArity => "ESHAPE_ARITY"
  | reshapeArity => "ERESHAPE_ARITY"
  | reshapeTarget => "ERESHAPE_ATTR"
  | reshapeInferred => "ERESHAPE_NEG1"
  | unsqueezeAxes => "EUNSQUEEZE_AXES"
  | squeezeAxes => "ESQUEEZE_AXES"
  | transposeArity => "ETRANSPOSE_ARITY"
  | transposePerm => "ETRANSPOSE_PERM"
  | concatArity => "ECONCAT_ARITY"
  | concatRank => "ECONCAT_RANK"
  | concatAxis => "ECONCAT_AXIS"
  | matMulArity => "EMATMUL_ARITY"
  | matMulDims _ _ => "EMATMUL_DIMS"
  | linearWeight => "ELINEAR_WEIGHT"
  | listAttribute _ => "EATTR"
  | convArity => "ECONV_ARITY"
  | convRank _ _ => "ECONV_RANK"
  | convGroups => "ECONV_GROUPS_DIV"
  | poolArity _ => "EPOOL_ARITY"
  | poolKernel _ => "EPOOL_KERNEL"
  | poolRank _ _ => "EPOOL_RANK"

def message : TypingError → String
  | broadcastArity o => s!"{o.name} expects inputs and 1 output"
  | broadcastMismatch a b => s!"Broadcast mismatch: {a} vs {b}"
  | selectArity => "Where expects 3 inputs and 1 output"
  | castArity => "Cast expects 1 input and 1 output"
  | castTarget => "Cast requires integer 'to' attribute"
  | fillLength => "ConstantOfShape needs a shape input of known length"
  | shapeArity => "Shape expects 1 input and 1 output"
  | reshapeArity => "Reshape expects 1 or 2 inputs and 1 output"
  | reshapeTarget => "Reshape requires a literal or rank-known 'shape'"
  | reshapeInferred => "Reshape 'shape' may contain at most one -1"
  | unsqueezeAxes => "Unsqueeze axes are unknown"
  | squeezeAxes => "Squeeze without axes needs a known input shape"
  | transposeArity => "Transpose expects 1 input and 1 output"
  | transposePerm => "Invalid Transpose perm"
  | concatArity => "Concat expects N inputs and 1 output"
  | concatRank => "Concat inputs must have same rank"
  | concatAxis => "Concat axis out of range"
  | matMulArity => "MatMul expects 2 inputs and 1 output"
  | matMulDims a b => s!"Incompatible MatMul inner dims: {a} vs {b}"
  | linearWeight => "Linear weight must be rank 2"
  | listAttribute name => s!"Attribute '{name}' must be list[int]"
  | convArity => "Conv expects at least 2 inputs and 1 output"
  | convRank o rank => s!"{o.name} expects a rank-{rank} input"
  | convGroups => "Conv input channels not divisible by group"
  | poolArity o => s!"{o.name} expects at least 1 output"
  | poolKernel o => s!"{o.name} requires kernel_shape"
  | poolRank o rank => s!"{o.name} expects rank {rank}"

end TypingError

def NamingError.message : NamingError → String
  | outputAsOperand name => s!"Graph output '{name}' can't be a node input"
  | outputUnnamed name => s!"Graph output '{name}' has no updated input name"
  | noEntry name => s!"No registry entry for '{name}'"
  | inputRenamed name => s!"Graph input '{name}' can't be renamed"
  | producedLate name producer => s!"'{name}' is produced by {producer} after being consumed"
  | producedTwice name => s!"'{name}' is produced by more than one node"
  | notBoundary name => s!"'{name}' is a node output, not a graph boundary"

namespace StructureError

def code : StructureError → String
  | outOfOrder _ _ _ => "ETOPO_ORDER"
  | producedTwice _ _ _ => "EDUP_PRODUCER"
  | valueless _ => "ECONST_VALUE"

/-- The attributes under which a Constant node may carry its literal; the first one present wins. -/
def literalKeys : List String :=
  ["value", "value_float", "value_floats", "value_int", "value_ints", "value_string",
    "value_strings", "sparse_value"]

def message : StructureError → String
  | outOfOrder name producer consumer =>
    s!"Nodes are not topologically sorted: '{name}' is produced by node {producer} " ++
      s!"but consumed by node {consumer}"
  | producedTwice name second first =>
    s!"Multiple producers for '{name}' at node {second} and {first}"
  | valueless node =>
    let keys := ", ".intercalate (literalKeys.map fun k => "'" ++ k ++ "'")
    s!"Constant node '{node}' has none of the value attributes [{keys}]"

/-- The node that the error points at. -/
def nodeIndex? : StructureError → Option Nat
  | outOfOrder _ _ consumer => some consumer
  | producedTwice _ second _ => some second
  | valueless _ => none

end StructureError

/-- The system's number and text for the failure. -/
def OpenFailure.message : OpenFailure → String
  | missing => "[Errno 2] No such file or directory"
  | directory => "[Errno 21] Is a directory"
  | notDirectory => "[Errno 20] Not a directory"
  | nameTooLong => "[Errno 36] File name too long"

def LoadError.message : LoadError → String
  | unsupportedSource kind => s!"Unsupported model source type {kind}"
  | cannotOpen source path why => s!"Unable to open {source}: {why.message}: {path}"
  | malformed source => s!"Unable to parse ONNX model {source}"

namespace Error

/-- The code that users see. A fault has none. -/
def code? : Error → Option String
  | unsupportedLayout _ => some "EUNSUPPORTED_TYPE"
  | unsupportedElement _ => some "EUNSUPPORTED_TYPE"
  | unsupportedOperator _ => some "EUNSUPPORTED_OP"
  | typing e => some e.code
  | naming _ => some "EINVALID_GRAPH"
  | structural e => some e.code
  | loading _ => some "ELOAD"
  | fault _ => none

def message : Error → String
  | unsupportedLayout layout => s!"Unsupported numpy dtype '{layout}'"
  | unsupportedElement name => s!"Unsupported ONNX element type {name}"
  | unsupportedOperator name => s!"Operator '{name}' is not supported"
  | typing e => e.message
  | naming e => e.message
  | structural e => e.message
  | loading e => e.message
  | fault _ => ""

/-- An error with a code is reported to the user as one line. -/
def Coded (e : Error) : Prop := e.code?.isSome

instance (e : Error) : Decidable e.Coded := inferInstanceAs (Decidable (e.code?.isSome = true))

theorem coded_iff (e : Error) : e.Coded ↔ ∀ f, e ≠ .fault f := by
  cases e <;> simp [Coded, code?]

end Error

/-- An index past either end. -/
abbrev outOfRange {α : Type} : Except Error α := .error (.fault .indexOutOfRange)

/-- A value of the wrong type. -/
abbrev wrongType {α : Type} : Except Error α := .error (.fault .wrongType)

/-- A value of the right type and the wrong content. -/
abbrev badValue {α : Type} : Except Error α := .error (.fault .badValue)

end TensorGraph
