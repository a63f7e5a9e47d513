import ModelGraph.Tensor.Nested
import ModelGraph.Tensor.Storage

/-!
# Tensors

A type, a run of bytes and their order. Nothing is checked when a tensor is made; `Tensor.check` says
whether it can be decoded, and why not.
-/

namespace ModelGraph

/-- Element type and shape; either may be unknown. -/
structure TensorType where
  elementType : Option ElementType
  shape : Option Shape
  deriving DecidableEq, Inhabited

def TensorType.text (t : TensorType) : String :=
  (t.elementType.map (·.label)).getD "?" ++ (t.shape.map (·.text)).getD ""

/-- Why a tensor cannot be decoded. -/
inductive TensorError where
  | unsupportedType (label : String)
  | missingShape
  | emptyData
  | tooShort (expected actual : Nat)
  deriving DecidableEq, Repr

def TensorError.message : TensorError → String
  | .unsupportedType label => s!"tensor data type '{label}' is not supported"
  | .missingShape => "tensor has no dimensions"
  | .emptyData => "tensor data is empty"
  | .tooShort expected actual =>
    s!"tensor data too short: expected {expected} bytes, got {actual}"

structure Tensor where
  name : String
  type : TensorType
  data : Option Bytes
  /-- Where in the data the first element begins. -/
  offset : Nat
  littleEndian : Bool
  deriving DecidableEq, Inhabited

namespace Tensor

/-- The limit of a preview when none is given. -/
def defaultLimit : Nat := 10000

/-- A tensor without data. -/
def declare (name : String) (type : TensorType) (littleEndian : Bool) : Tensor :=
  ⟨name, type, none, 0, littleEndian⟩

def withData (t : Tensor) (data : Bytes) (offset : Nat) : Tensor :=
  { t with data := some data, offset }

/-- The tensor that begins `offset` elements into a storage. An offset past all sizes leaves no
bytes. -/
def ofStorage (name : String) (storage : Storage) (offset : Nat) (shape : Option Shape)
    (littleEndian : Bool) : Tensor :=
  let tensor := declare name ⟨some storage.elementType, shape⟩ littleEndian
  match storage.buffer? with
  | none => tensor
  | some (data, base) =>
    let start := (checkedMul offset storage.elementType.width).bind (checkedAdd · base)
    tensor.withData data (start.getD data.length)

/-- The bytes from the first element on. -/
def bytes? (t : Tensor) : Option Bytes := t.data.map (·.drop t.offset)

/-- What decoding needs: the layout of the elements, the dimensions and the bytes. -/
structure Decodable where
  layout : ElementLayout
  dims : List Nat
  bytes : Bytes

/-- Checks that the tensor can be decoded. -/
def check (t : Tensor) : Except TensorError Decodable :=
  match t.type.elementType with
  | none => .error (.unsupportedType "?")
  | some elementType =>
    match elementType.layout? with
    | none => .error (.unsupportedType elementType.label)
    | some layout =>
      match t.type.shape with
      | none => .error .missingShape
      | some shape =>
        match t.bytes? with
        | none => .error .emptyData
        | some bytes =>
          let expected := (shape.byteLength? elementType).getD maxSize
          if bytes.length < expected then .error (.tooShort expected bytes.length)
          else .ok ⟨layout, shape.dims, bytes⟩

/-- Decodes at most `limit` elements. -/
def preview (t : Tensor) (limit : Nat) : Except TensorError Nested :=
  t.check.map fun d => Nested.decode ⟨d.layout, t.littleEndian, limit⟩ d.dims d.bytes

/-- Decodes every element. -/
def value (t : Tensor) : Except TensorError Nested := t.preview maxSize

/-- The text of a preview; nothing if the tensor cannot be decoded. -/
def text (t : Tensor) : String :=
  match t.preview defaultLimit with
  | .ok value => value.text
  | .error _ => ""

end Tensor

end ModelGraph
