import ModelGraph.Json.Basic
import ModelGraph.Nnapi.Code
import ModelGraph.Number.FloatText
import ModelGraph.Number.Word

/-!
# NNAPI models

Operands, operations on them by index, and the texts that show them.
-/

namespace ModelGraph.Nnapi

inductive OperandValue where
  | bool (value : Bool)
  | int (value : Int32)
  | bytes (value : Bytes)
  /-- A part of a buffer that is kept outside the model. -/
  | buffer (number offset length : UInt32)
  deriving DecidableEq

structure Operand where
  type : OperandType
  dimensions : List UInt32
  /-- The bits of the single precision scale. -/
  scale : UInt32
  zeroPoint : Int32
  value : Option OperandValue
  deriving DecidableEq, Inhabited

structure Operation where
  type : OperationType
  inputs : List Nat
  outputs : List Nat
  deriving DecidableEq, Inhabited

structure Model where
  version : Int32
  operands : List Operand
  operations : List Operation
  inputs : List Nat
  outputs : List Nat
  deriving DecidableEq, Inhabited

/-- The signed 32-bit words of bytes; an incomplete last one is dropped. -/
def words : Bytes → List Int
  | a :: b :: c :: d :: rest => intOfBytes [a, b, c, d] :: words rest
  | _ => []

def OperandValue.text : OperandValue → String
  | .bool b => if b then "true" else "false"
  | .int i => toString i.toInt
  | .bytes data => "[" ++ String.intercalate ", " ((words data).map toString) ++ "]"
  | .buffer number offset length =>
    s!"buffer {number.toNat} @ {offset.toNat} ({length.toNat} bytes)"

/-- Whether the bits stand for a scale other than zero. -/
def isScaled (scale : UInt32) : Bool := scale.toNat % 0x80000000 ≠ 0

def Operand.text (o : Operand) : String :=
  let dims := String.intercalate "," (o.dimensions.map fun d => toString d.toNat)
  let quantized :=
    if isScaled o.scale ∨ o.zeroPoint ≠ 0 then
      " scale=" ++ FloatLayout.display.writeSingle o.scale ++
        " zero_point=" ++ toString o.zeroPoint.toInt
    else ""
  let value := (o.value.map fun v => " = " ++ v.text).getD ""
  o.type.text ++ "[" ++ dims ++ "]" ++ quantized ++ value

/-- The name of a type, or its number. -/
def codeJson (name : Option String) (code : Int32) : Json :=
  match name with
  | some name => .string name
  | none => .int code.toInt

def OperandValue.json : OperandValue → Json
  | .bool b => .object [("bool", .bool b)]
  | .int i => .object [("int", .int i.toInt)]
  | .bytes data => .object [("bytes", .array (data.map fun b => .int b.toNat))]
  | .buffer number offset length =>
    .object [("buffer", .object [("number", .int number.toNat), ("offset", .int offset.toNat),
      ("length", .int length.toNat)])]

/-- A scale as a number; what is not finite is written as null. -/
def scaleJson (scale : UInt32) : Json := .single scale

def Operand.json (o : Operand) : Json :=
  .object ([("type", codeJson o.type.name? o.type.code),
    ("dimensions", .array (o.dimensions.map fun d => .int d.toNat)),
    ("scale", scaleJson o.scale), ("zero_point", .int o.zeroPoint.toInt)] ++
    (o.value.map fun v => ("value", v.json)).toList)

def indicesJson (indices : List Nat) : Json := .array (indices.map fun (i : Nat) => .int i)

def Operation.json (o : Operation) : Json :=
  .object [("type", codeJson o.type.name? o.type.code), ("inputs", indicesJson o.inputs),
    ("outputs", indicesJson o.outputs)]

def Model.json (m : Model) : Json :=
  .object [("version", .int m.version.toInt), ("operands", .array (m.operands.map (·.json))),
    ("operations", .array (m.operations.map (·.json))), ("inputs", indicesJson m.inputs),
    ("outputs", indicesJson m.outputs)]

end ModelGraph.Nnapi
