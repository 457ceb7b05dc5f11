/-!
# Operators

The operators of a graph, and what they are called. A name calls at most one (`ofName?_name`).
-/

namespace TensorGraph

/-- An operator. `unknown` stands for every operator outside the list; nodes of that kind are read
for their names alone. -/
inductive Operator where
  | abs
  | add
  | and
  | argMax
  | averagePool
  | averagePool1d
  | averagePool2d
  | batchNormalization
  | cast
  | ceil
  | clip
  | concat
  | constant
  | constantOfShape
  | conv
  | conv1d
  | conv2d
  | conv3d
  | convTranspose
  | convTranspose1d
  | convTranspose2d
  | convTranspose3d
  | cos
  | div
  | dropout
  | equal
  | erf
  | exp
  | expand
  | flatten
  | floor
  | gather
  | gelu
  | gemm
  | globalAveragePool
  | globalMaxPool
  | greater
  | greaterOrEqual
  | hardSigmoid
  | identity
  | instanceNormalization
  | layerNormalization
  | leakyRelu
  | less
  | lessOrEqual
  | linear
  | log
  | logSoftmax
  | matMul
  | max
  | maxPool
  | maxPool1d
  | maxPool2d
  | mean
  | min
  | mul
  | neg
  | not
  | or
  | pad
  | pow
  | pRelu
  | reciprocal
  | reduceMax
  | reduceMean
  | reduceMin
  | reduceProd
  | reduceSum
  | relu
  | reshape
  | shape
  | sigmoid
  | sin
  | slice
  | softmax
  | split
  | sqrt
  | squeeze
  | sub
  | sum
  | tanh
  | transpose
  | unsqueeze
  | select
  | unknown
deriving DecidableEq, Repr, Inhabited

namespace Operator

/-- Every operator. -/
def all : List Operator :=
  [.abs, .add, .and, .argMax, .averagePool, .averagePool1d, .averagePool2d, .batchNormalization,
    .cast, .ceil, .clip, .concat, .constant, .constantOfShape, .conv, .conv1d, .conv2d, .conv3d,
    .convTranspose, .convTranspose1d, .convTranspose2d, .convTranspose3d, .cos, .div, .dropout,
    .equal, .erf, .exp, .expand, .flatten, .floor, .gather, .gelu, .gemm, .globalAveragePool,
    .globalMaxPool, .greater, .greaterOrEqual, .hardSigmoid, .identity, .instanceNormalization,
    .layerNormalization, .leakyRelu, .less, .lessOrEqual, .linear, .log, .logSoftmax, .matMul,
    .max, .maxPool, .maxPool1d, .maxPool2d, .mean, .min, .mul, .neg, .not, .or, .pad, .pow,
    .pRelu, .reciprocal, .reduceMax, .reduceMean, .reduceMin, .reduceProd, .reduceSum, .relu,
    .reshape, .shape, .sigmoid, .sin, .slice, .softmax, .split, .sqrt, .squeeze, .sub, .sum,
    .tanh, .transpose, .unsqueeze, .select, .unknown]

/-- The name of an operator in a file and in what is written. -/
def name : Operator → String
  | .abs => "Abs"
  | .add => "Add"
  | .and => "And"
  | .argMax => "ArgMax"
  | .averagePool => "AveragePool"
  | .averagePool1d => "AveragePool1d"
  | .averagePool2d => "AveragePool2d"
  | .batchNormalization => "BatchNormalization"
  | .cast => "Cast"
  | .ceil => "Ceil"
  | .clip => "Clip"
  | .concat => "Concat"
  | .constant => "Constant"
  | .constantOfShape => "ConstantOfShape"
  | .conv => "Conv"
  | .conv1d => "Conv1d"
  | .conv2d => "Conv2d"
  | .conv3d => "Conv3d"
  | .convTranspose => "ConvTranspose"
  | .convTranspose1d => "ConvTranspose1d"
  | .convTranspose2d => "ConvTranspose2d"
  | .convTranspose3d => "ConvTranspose3d"
  | .cos => "Cos"
  | .div => "Div"
  | .dropout => "Dropout"
  | .equal => "Equal"
  | .erf => "Erf"
  | .exp => "Exp"
  | .expand => "Expand"
  | .flatten => "Flatten"
  | .floor => "Floor"
  | .gather => "Gather"
  | .gelu => "Gelu"
  | .gemm => "Gemm"
  | .globalAveragePool => "GlobalAveragePool"
  | .globalMaxPool => "GlobalMaxPool"
  | .greater => "Greater"
  | .greaterOrEqual => "GreaterOrEqual"
  | .hardSigmoid => "HardSigmoid"
  | .identity => "Identity"
  | .instanceNormalization => "InstanceNormalization"
  | .layerNormalization => "LayerNormalization"
  | .leakyRelu => "LeakyRelu"
  | .less => "Less"
  | .lessOrEqual => "LessOrEqual"
  | .linear => "Linear"
  | .log => "Log"
  | .logSoftmax => "LogSoftmax"
  | .matMul => "MatMul"
  | .max => "Max"
  | .maxPool => "MaxPool"
  | .maxPool1d => "MaxPool1d"
  | .maxPool2d => "MaxPool2d"
  | .mean => "Mean"
  | .min => "Min"
  | .mul => "Mul"
  | .neg => "Neg"
  | .not => "Not"
  | .or => "Or"
  | .pad => "Pad"
  | .pow => "Pow"
  | .pRelu => "PRelu"
  | .reciprocal => "Reciprocal"
  | .reduceMax => "ReduceMax"
  | .reduceMean => "ReduceMean"
  | .reduceMin => "ReduceMin"
  | .reduceProd => "ReduceProd"
  | .reduceSum => "ReduceSum"
  | .relu => "Relu"
  | .reshape => "Reshape"
  | .shape => "Shape"
  | .sigmoid => "Sigmoid"
  | .sin => "Sin"
  | .slice => "Slice"
  | .softmax => "Softmax"
  | .split => "Split"
  | .sqrt => "Sqrt"
  | .squeeze => "Squeeze"
  | .sub => "Sub"
  | .sum => "Sum"
  | .tanh => "Tanh"
  | .transpose => "Transpose"
  | .unsqueeze => "Unsqueeze"
  | .select => "Where"
  | .unknown => "<unsupported>"

/-- The operator that a file calls `s`. -/
def ofName? (s : String) : Option Operator :=
  all.find? fun o => o ≠ .unknown ∧ o.name = s

theorem ofName?_name (o : Operator) (h : o ≠ .unknown) : ofName? o.name = some o := by
  cases o <;> first | rfl | exact absurd rfl h

end Operator

end TensorGraph
