import ModelGraph.Nnapi.Decode

/-!
# Writing NNAPI models

The sections of a serialized model, in the order in which they are read: version and counts, operand
records, value headers in the order of the operands, operation records, dimensions, payloads, indices.
A type with a name is written as the place of its name in the table.
-/

namespace ModelGraph.Nnapi

/-- Four bytes of a signed word. -/
def signedWord (i : Int) : Bytes := bytesOfInt 4 i

/-- Four bytes of an unsigned word. -/
def unsignedWord (n : Nat) : Bytes := bytesOfNat 4 n

/-! ## Numbers of types -/

/-- The place of a name in a table, or the number itself where there is no name. -/
def numberOf (names : List String) (name : Option String) (code : Int32) : Int :=
  name.elim code.toInt fun name => names.idxOf name

/-- The number of an operand's type. The type `model` is not in the table. -/
def OperandType.number (t : OperandType) : Int :=
  if t.name? = some "model" then 16 else numberOf operandTypeNames t.name? t.code

def OperationType.number (t : OperationType) : Int := numberOf operationNames t.name? t.code

/-! ## Values -/

namespace OperandValue

/-- Whether an operand of the type can have the value. -/
def Fits (type : OperandType) : OperandValue → Prop
  | .bool _ => type = .boolean
  | .int _ => type = .int32
  | .bytes data => type = .int32Tensor ∧ data.length < 0x100000000
  | .buffer _ _ _ => True

/-- Values are in the model, or they are parts of a numbered buffer. -/
def source : OperandValue → Int
  | .buffer _ _ _ => 2
  | _ => 0

def length : OperandValue → Nat
  | .bool _ => 1
  | .int _ => 4
  | .bytes data => data.length
  | .buffer _ _ _ => 12

/-- A flag is filled up to a word. -/
def payload : OperandValue → Bytes
  | .bool b => [if b then 1 else 0, 0, 0, 0]
  | .int i => signedWord i.toInt
  | .bytes data => data
  | .buffer number offset length =>
    unsignedWord number.toNat ++ unsignedWord offset.toNat ++ unsignedWord length.toNat

end OperandValue

/-- The values of operands with the numbers of their operands, from a number on. -/
def numberedValues : Nat → List Operand → List (Nat × OperandValue)
  | _, [] => []
  | number, operand :: rest =>
    (operand.value.map fun value => (number, value)).toList ++ numberedValues (number + 1) rest

/-! ## Sections -/

def Operand.writeRecord (o : Operand) : Bytes :=
  signedWord o.type.number ++ unsignedWord o.dimensions.length ++ unsignedWord o.scale.toNat ++
    signedWord o.zeroPoint.toInt

def writeHeader (numbered : Nat × OperandValue) : Bytes :=
  signedWord numbered.1 ++ signedWord numbered.2.source ++ unsignedWord numbered.2.length

def Operation.writeRecord (o : Operation) : Bytes :=
  signedWord o.type.number ++ unsignedWord o.inputs.length ++ unsignedWord o.outputs.length

def Operand.writeDimensions (o : Operand) : Bytes :=
  o.dimensions.flatMap fun d => unsignedWord d.toNat

def writeIndices (indices : List Nat) : Bytes := indices.flatMap unsignedWord

namespace Model

/-- The values of the model with the numbers of their operands. -/
def values (m : Model) : List (Nat × OperandValue) := numberedValues 0 m.operands

/-- The bytes of a model. -/
def encode (m : Model) : Bytes :=
  signedWord m.version.toInt ++ signedWord m.operands.length ++ signedWord m.values.length ++
    signedWord m.operations.length ++ signedWord m.inputs.length ++ signedWord m.outputs.length ++
    m.operands.flatMap Operand.writeRecord ++
    m.values.flatMap writeHeader ++
    m.operations.flatMap Operation.writeRecord ++
    m.operands.flatMap Operand.writeDimensions ++
    m.values.flatMap (·.2.payload) ++
    m.operations.flatMap (fun o => writeIndices o.inputs ++ writeIndices o.outputs) ++
    writeIndices m.inputs ++ writeIndices m.outputs

/-- What the words of the layout can hold: lengths below 2³² or, in the header, below 2³¹; indices of
operands that are there; values that fit the types of their operands. -/
structure WellFormed (m : Model) : Prop where
  version : m.version = 1
  operands : m.operands.length < 0x80000000
  operations : m.operations.length < 0x80000000
  inputs : m.inputs.length < 0x80000000
  outputs : m.outputs.length < 0x80000000
  rank : ∀ o ∈ m.operands, o.dimensions.length < 0x100000000
  fits : ∀ o ∈ m.operands, ∀ value ∈ o.value, value.Fits o.type
  inputCount : ∀ o ∈ m.operations, o.inputs.length < 0x100000000
  outputCount : ∀ o ∈ m.operations, o.outputs.length < 0x100000000
  operationInput : ∀ o ∈ m.operations, ∀ i ∈ o.inputs, i < m.operands.length
  operationOutput : ∀ o ∈ m.operations, ∀ i ∈ o.outputs, i < m.operands.length
  input : ∀ i ∈ m.inputs, i < m.operands.length
  output : ∀ i ∈ m.outputs, i < m.operands.length

end Model

end ModelGraph.Nnapi
