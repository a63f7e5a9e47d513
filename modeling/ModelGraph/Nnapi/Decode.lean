import ModelGraph.Nnapi.Model

/-!
# Decoding NNAPI models

Sections follow each other without gaps, all words little-endian: version and counts; operand records;
value headers; operation records; dimensions of the operands; payloads of the values; indices. The
lengths of later sections come from earlier ones.
-/

namespace ModelGraph.Nnapi

inductive DecodeError where
  | invalidVersion (version : Int32)
  | invalidCount (what : String) (count : Int32)
  /-- The bytes end `needed` bytes too early for a read at `offset`. -/
  | unexpectedEnd (offset needed : Nat)
  | invalidOperand (index : Int) (count : Nat)
  | unsupportedImmediate (type : String)
  | invalidBufferLength (length : UInt32)
  | unsupportedSource (what : String)
  | unknownSource (code : Int32)
  | trailingBytes (count : Nat)
  deriving DecidableEq

def DecodeError.message : DecodeError → String
  | .invalidVersion version => s!"invalid NNAPI serialized model version {version.toInt}"
  | .invalidCount what count => s!"invalid NNAPI {what} count {count.toInt}"
  | .unexpectedEnd offset needed =>
    s!"unexpected end of NNAPI model at offset {offset}: expected {needed} more bytes"
  | .invalidOperand index count =>
    s!"NNAPI operand index {index} out of range ({count} operands)"
  | .unsupportedImmediate type => s!"unsupported NNAPI immediate operand type '{type}'"
  | .invalidBufferLength length => s!"invalid NNAPI numbered buffer source length {length.toNat}"
  | .unsupportedSource what => s!"NNAPI {what} is not supported"
  | .unknownSource code => s!"unknown NNAPI value source type {code.toInt}"
  | .trailingBytes count => s!"invalid NNAPI serialized model length: {count} trailing bytes"

/-- Where a reading stands. -/
structure Cursor where
  offset : Nat
  rest : Bytes

/-- A reading from a cursor. -/
abbrev Read (α : Type) := Cursor → Except DecodeError (α × Cursor)

namespace Read

/-- Takes the next bytes. -/
def bytes (length : Nat) : Read Bytes := fun c =>
  if c.rest.length < length then .error (.unexpectedEnd c.offset (length - c.rest.length))
  else .ok (c.rest.take length, ⟨c.offset + length, c.rest.drop length⟩)

def pure {α : Type} (a : α) : Read α := fun c => .ok (a, c)

def fail {α : Type} (e : DecodeError) : Read α := fun _ => .error e

def bind {α β : Type} (r : Read α) (next : α → Read β) : Read β := fun c =>
  match r c with
  | .ok (a, c) => next a c
  | .error e => .error e

instance : Monad Read where
  pure := Read.pure
  bind := Read.bind

def signed : Read Int32 := do return Int32.ofInt (intOfBytes (← bytes 4))

def unsigned : Read UInt32 := do return UInt32.ofNat (natOfBytes (← bytes 4))

/-- Reads one item after another, one for each element of a list. -/
def each {α β : Type} (item : α → Read β) : List α → Read (List β)
  | [] => pure []
  | a :: rest => do return (← item a) :: (← each item rest)

/-- Reads a number of items. -/
def times {α : Type} (item : Read α) : Nat → Read (List α)
  | 0 => pure []
  | n + 1 => do return (← item) :: (← times item n)

/-- A count in the header. -/
def count (what : String) : Read Nat := do
  let n ← signed
  if n < 0 then fail (.invalidCount what n) else pure n.toInt.toNat

end Read

/-- An operand before its dimensions and value are read. -/
structure OperandRecord where
  type : OperandType
  rank : UInt32
  scale : UInt32
  zeroPoint : Int32

structure ValueHeader where
  operand : Nat
  source : Int32
  length : UInt32

structure OperationRecord where
  type : OperationType
  inputCount : UInt32
  outputCount : UInt32

/-- Accepts an index below a count. -/
def checkIndex (index : Int) (count : Nat) : Read Nat :=
  if 0 ≤ index ∧ index < count then Read.pure index.toNat else Read.fail (.invalidOperand index count)

def readOperandRecord : Read OperandRecord := do
  return ⟨⟨← Read.signed⟩, ← Read.unsigned, ← Read.unsigned, ← Read.signed⟩

def readValueHeader (operandCount : Nat) : Read ValueHeader := do
  let operand ← checkIndex (← Read.signed).toInt operandCount
  return ⟨operand, ← Read.signed, ← Read.unsigned⟩

def readOperationRecord : Read OperationRecord := do
  return ⟨⟨← Read.signed⟩, ← Read.unsigned, ← Read.unsigned⟩

/-- The payload of a value of an operand of the type. -/
def readPayload (header : ValueHeader) (type : OperandType) : Read OperandValue :=
  if header.source = 0 then
    if type = .boolean then do
      let flag ← Read.bytes 1
      let _ ← Read.bytes 3
      return .bool (flag.any (· ≠ 0))
    else if type = .int32 then do return .int (← Read.signed)
    else if type = .int32Tensor then do return .bytes (← Read.bytes header.length.toNat)
    else Read.fail (.unsupportedImmediate type.text)
  else if header.source = 2 then
    if header.length ≠ 12 then Read.fail (.invalidBufferLength header.length)
    else do return .buffer (← Read.unsigned) (← Read.unsigned) (← Read.unsigned)
  else if header.source = 3 then Read.fail (.unsupportedSource "numbered memory value source")
  else Read.fail (.unknownSource header.source)

/-- Reads the payload of one value and stores it with its operand. -/
def readValue (operands : List Operand) (header : ValueHeader) : Read (List Operand) :=
  match operands[header.operand]? with
  | some operand => do
    let value ← readPayload header operand.type
    return operands.set header.operand { operand with value := some value }
  | none => Read.fail (.invalidOperand header.operand operands.length)

def readValues : List Operand → List ValueHeader → Read (List Operand)
  | operands, [] => Read.pure operands
  | operands, header :: rest => do readValues (← readValue operands header) rest

def readOperand (record : OperandRecord) : Read Operand := do
  let dimensions ← Read.times Read.unsigned record.rank.toNat
  return ⟨record.type, dimensions, record.scale, record.zeroPoint, none⟩

def readIndices (operandCount length : Nat) : Read (List Nat) :=
  Read.times (do checkIndex (← Read.unsigned).toNat operandCount) length

def readOperation (operandCount : Nat) (record : OperationRecord) : Read Operation := do
  let inputs ← readIndices operandCount record.inputCount.toNat
  let outputs ← readIndices operandCount record.outputCount.toNat
  return ⟨record.type, inputs, outputs⟩

/-- Nothing may be left. -/
def readEnd : Read Unit := fun c =>
  if c.rest.isEmpty then .ok ((), c) else .error (.trailingBytes c.rest.length)

def readModel : Read Model := do
  let version ← Read.signed
  if version ≠ 1 then Read.fail (.invalidVersion version)
  else do
    let operandCount ← Read.count "operand"
    let valueCount ← Read.count "value"
    let operationCount ← Read.count "operation"
    let inputCount ← Read.count "input"
    let outputCount ← Read.count "output"
    let operandRecords ← Read.times readOperandRecord operandCount
    let headers ← Read.times (readValueHeader operandCount) valueCount
    let operationRecords ← Read.times readOperationRecord operationCount
    let bare ← Read.each readOperand operandRecords
    let operands ← readValues bare headers
    let operations ← Read.each (readOperation operandCount) operationRecords
    let inputs ← readIndices operandCount inputCount
    let outputs ← readIndices operandCount outputCount
    readEnd
    return ⟨version, operands, operations, inputs, outputs⟩

/-- Decodes a serialized model. -/
def Model.decode (data : Bytes) : Except DecodeError Model :=
  (readModel ⟨0, data⟩).map (·.1)

end ModelGraph.Nnapi
