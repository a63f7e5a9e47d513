/-!
# Element types

The types that a storage can declare for its elements, their widths, their labels and the names under
which they are found. Only some have elements that can be decoded; those have an `ElementLayout`.
-/

namespace ModelGraph

inductive ElementType where
  | bool
  | uint8
  | int8
  | int16
  | int32
  | int64
  | uint16
  | uint32
  | uint64
  | float16
  | bfloat16
  | float32
  | float64
  | complex64
  | complex128
  | qint8
  | quint8
  | qint32
  deriving DecidableEq, Repr, Inhabited

/-- How the bytes of one element are read. -/
inductive ElementLayout where
  | truth
  | unsigned (width : Nat)
  | signed (width : Nat)
  | half
  | single
  | double
  deriving DecidableEq, Repr

namespace ElementType

/-- Bytes for one element. -/
def width : ElementType → Nat
  | .bool | .uint8 | .int8 | .qint8 | .quint8 => 1
  | .int16 | .uint16 | .float16 | .bfloat16 => 2
  | .int32 | .uint32 | .float32 | .qint32 => 4
  | .int64 | .uint64 | .float64 | .complex64 => 8
  | .complex128 => 16

/-- The label in the text of a tensor type. -/
def label : ElementType → String
  | .bool => "boolean"
  | .uint8 => "uint8"
  | .int8 => "int8"
  | .int16 => "int16"
  | .int32 => "int32"
  | .int64 => "int64"
  | .uint16 => "uint16"
  | .uint32 => "uint32"
  | .uint64 => "uint64"
  | .float16 => "float16"
  | .bfloat16 => "bfloat16"
  | .float32 => "float32"
  | .float64 => "float64"
  | .complex64 => "complex64"
  | .complex128 => "complex128"
  | .qint8 => "qint8"
  | .quint8 => "quint8"
  | .qint32 => "qint32"

/-- The tag in JSON documents. -/
def tag : ElementType → String
  | .bool => "Bool"
  | .uint8 => "U8"
  | .int8 => "I8"
  | .int16 => "I16"
  | .int32 => "I32"
  | .int64 => "I64"
  | .uint16 => "U16"
  | .uint32 => "U32"
  | .uint64 => "U64"
  | .float16 => "F16"
  | .bfloat16 => "BF16"
  | .float32 => "F32"
  | .float64 => "F64"
  | .complex64 => "C64"
  | .complex128 => "C128"
  | .qint8 => "QI8"
  | .quint8 => "QU8"
  | .qint32 => "QI32"

/-- Finds a type by its label or a short name, in any case of ASCII letters. -/
def ofName? (name : String) : Option ElementType :=
  match name.toLower with
  | "boolean" | "bool" => some .bool
  | "uint8" | "u8" => some .uint8
  | "int8" | "i8" => some .int8
  | "int16" | "i16" => some .int16
  | "int32" | "i32" => some .int32
  | "int64" | "i64" => some .int64
  | "uint16" | "u16" => some .uint16
  | "uint32" | "u32" => some .uint32
  | "uint64" | "u64" => some .uint64
  | "float16" | "f16" | "half" => some .float16
  | "bfloat16" | "bf16" => some .bfloat16
  | "float32" | "f32" | "float" => some .float32
  | "float64" | "f64" | "double" => some .float64
  | "complex64" => some .complex64
  | "complex128" => some .complex128
  | "qint8" => some .qint8
  | "quint8" => some .quint8
  | "qint32" => some .qint32
  | _ => none

/-- The type of a storage class, by the class's name. -/
def ofStorageName? : String → Option ElementType
  | "ByteStorage" => some .uint8
  | "BoolStorage" => some .bool
  | "CharStorage" => some .int8
  | "ShortStorage" => some .int16
  | "IntStorage" => some .int32
  | "LongStorage" => some .int64
  | "HalfStorage" => some .float16
  | "FloatStorage" => some .float32
  | "DoubleStorage" => some .float64
  | "QInt8Storage" => some .qint8
  | _ => none

/-- How elements of the type are read, if they are. -/
def layout? : ElementType → Option ElementLayout
  | .bool => some .truth
  | .uint8 => some (.unsigned 1)
  | .int8 | .qint8 => some (.signed 1)
  | .int16 => some (.signed 2)
  | .int32 => some (.signed 4)
  | .int64 => some (.signed 8)
  | .float16 => some .half
  | .float32 => some .single
  | .float64 => some .double
  | _ => none

/-- Whether elements of the type can be decoded. -/
def isDecodable (t : ElementType) : Bool := t.layout?.isSome

theorem width_pos (t : ElementType) : 0 < t.width := by cases t <;> decide

theorem ofName?_label (t : ElementType) : ofName? t.label = some t := by cases t <;> decide +kernel

end ElementType

end ModelGraph
