import TensorGraph.ElementType

/-!
# Numbered element types

The element types that a file refers to by number.
-/

namespace TensorGraph.Onnx

open Binary

/-- An element type as files number it. -/
structure DataType where
  code : Int
  name : String
  layout : Layout
deriving DecidableEq, Repr

namespace DataType

def bfloat16 : Format := { name := "bfloat16", exponentBits := 8, fractionBits := 7, bias := 127 }

def float8e4m3fn : Format :=
  { name := "float8_e4m3fn", exponentBits := 4, fractionBits := 3, bias := 7, specials := .topNan }

def float8e4m3fnuz : Format :=
  { name := "float8_e4m3fnuz", exponentBits := 4, fractionBits := 3, bias := 8,
    specials := .zeroNan }

def float8e5m2 : Format :=
  { name := "float8_e5m2", exponentBits := 5, fractionBits := 2, bias := 15 }

def float8e5m2fnuz : Format :=
  { name := "float8_e5m2fnuz", exponentBits := 5, fractionBits := 2, bias := 16,
    specials := .zeroNan }

def float8e8m0fnu : Format :=
  { name := "float8_e8m0fnu", exponentBits := 8, fractionBits := 0, bias := 127,
    specials := .powers }

def float6e2m3fn : Format :=
  { name := "float6_e2m3fn", exponentBits := 2, fractionBits := 3, bias := 1, specials := .none }

def float6e3m2fn : Format :=
  { name := "float6_e3m2fn", exponentBits := 3, fractionBits := 2, bias := 3, specials := .none }

def float4e2m1fn : Format :=
  { name := "float4_e2m1fn", exponentBits := 2, fractionBits := 1, bias := 1, specials := .none }

/-- Every element type of files. -/
def all : List DataType :=
  [⟨1, "FLOAT", .float .binary32⟩, ⟨2, "UINT8", .unsigned 8⟩, ⟨3, "INT8", .signed 8⟩,
    ⟨4, "UINT16", .unsigned 16⟩, ⟨5, "INT16", .signed 16⟩, ⟨6, "INT32", .signed 32⟩,
    ⟨7, "INT64", .signed 64⟩, ⟨8, "STRING", .object⟩, ⟨9, "BOOL", .bool⟩,
    ⟨10, "FLOAT16", .float .binary16⟩, ⟨11, "DOUBLE", .float .binary64⟩,
    ⟨12, "UINT32", .unsigned 32⟩, ⟨13, "UINT64", .unsigned 64⟩,
    ⟨14, "COMPLEX64", .complex .binary32⟩, ⟨15, "COMPLEX128", .complex .binary64⟩,
    ⟨16, "BFLOAT16", .float bfloat16⟩, ⟨17, "FLOAT8E4M3FN", .float float8e4m3fn⟩,
    ⟨18, "FLOAT8E4M3FNUZ", .float float8e4m3fnuz⟩, ⟨19, "FLOAT8E5M2", .float float8e5m2⟩,
    ⟨20, "FLOAT8E5M2FNUZ", .float float8e5m2fnuz⟩, ⟨21, "UINT4", .unsigned 4⟩,
    ⟨22, "INT4", .signed 4⟩, ⟨23, "FLOAT4E2M1", .float float4e2m1fn⟩,
    ⟨24, "FLOAT8E8M0", .float float8e8m0fnu⟩, ⟨25, "UINT2", .unsigned 2⟩,
    ⟨26, "INT2", .signed 2⟩, ⟨27, "FLOAT6E2M3", .float float6e2m3fn⟩,
    ⟨28, "FLOAT6E3M2", .float float6e3m2fn⟩]

def ofCode? (code : Int) : Option DataType := all.find? (·.code = code)

/-- The types that the elements of a graph may have. -/
def supported : List (String × ElementType) :=
  [("FLOAT", .float32), ("DOUBLE", .float64), ("FLOAT16", .float16), ("INT8", .int8),
    ("INT32", .int32), ("INT64", .int64), ("UINT8", .uint8), ("BOOL", .bool), ("STRING", .string)]

/-- The element type that is called by number, if graphs have it. -/
def element? (code : Int) : Option ElementType :=
  (ofCode? code).bind fun t => supported.lookup t.name

/-- The name of a number for messages: numbers count modulo words of 32 bits, and zero stands for no
type. Numbers past 64 bits have none. -/
def shownName? (code : Int) : Option String :=
  let low := Int.bmod code (2 ^ 32)
  if Int.bmod code (2 ^ 64) ≠ code then none
  else if low = 0 then some "UNDEFINED"
  else (ofCode? low).map DataType.name

/-- The element type that a file calls by number. -/
def element (code : Int) : Except Error ElementType :=
  match element? code, shownName? code with
  | some t, _ => .ok t
  | none, some name => .error (.unsupportedElement name)
  | none, none => badValue

end DataType

end TensorGraph.Onnx
