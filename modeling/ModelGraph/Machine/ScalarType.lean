import ModelGraph.Machine.Error
import ModelGraph.Number.Binary
import ModelGraph.Number.Numeral
import ModelGraph.Object.Value

/-!
# Scalar types of arrays

The type codes of array elements and the reading of one little-endian scalar.
-/

namespace ModelGraph

structure ScalarType where
  name : String
  /-- Bytes of one scalar. -/
  width : Nat
  deriving DecidableEq, Inhabited

namespace ScalarType

/-- The codes without a free width. -/
def fixed : List (String × ScalarType) := [
  ("i1", ⟨"int8", 1⟩), ("i2", ⟨"int16", 2⟩), ("i4", ⟨"int32", 4⟩), ("i8", ⟨"int64", 8⟩),
  ("b1", ⟨"bool", 1⟩),
  ("u1", ⟨"uint8", 1⟩), ("u2", ⟨"uint16", 2⟩), ("u4", ⟨"uint32", 4⟩), ("u8", ⟨"uint64", 8⟩),
  ("f2", ⟨"float16", 2⟩), ("f4", ⟨"float32", 4⟩), ("f8", ⟨"float64", 8⟩),
  ("c8", ⟨"complex64", 8⟩), ("c16", ⟨"complex128", 16⟩)]

/-- A letter and a width: `V16`, `U7`; a missing width is zero. -/
def sized? (letter : Char) (width : Nat) : Option ScalarType :=
  match letter with
  | 'V' => some ⟨"void" ++ toString (width * 8), width⟩
  | 'O' => some ⟨"object", 8⟩
  | 'S' => some ⟨"string", width⟩
  | 'U' => some ⟨"string", width * 4⟩
  | 'M' => some ⟨"datetime", 8⟩
  | _ => none

def ofCode? (code : String) : Option ScalarType :=
  (fixed.lookup code).or <|
    match code.toList with
    | [] => none
    | letter :: [] => sized? letter 0
    | letter :: width => (sizeNumeral? width).bind (sized? letter)

/-- What reading a scalar finds wrong. -/
def tooShort : RunError := .type .truncatedScalar

/-- Reads the first bytes of a scalar. -/
def leadingWord (width : Nat) (raw : Bytes) (read : Bytes → Value) : Except RunError Value :=
  if raw.length < width then .error tooShort else .ok (read (raw.take width))

/-- The integer of the bytes of a signed word. -/
def signedWord (raw : Bytes) : Value := .int (Int64.ofInt (intOfBytes raw))

/-- Reads a scalar of the named type from the first bytes. -/
def read (name : String) (raw : Bytes) : Except RunError Value :=
  match name with
  | "float32" => leadingWord 4 raw fun b => .float (BinaryFormat.single.decode (natOfBytes b)).toFloat
  | "float64" => leadingWord 8 raw fun b => .float (Float.ofBits (UInt64.ofNat (natOfBytes b)))
  | "bool" => leadingWord 1 raw fun b => .bool (b != [0])
  | "uint8" => leadingWord 1 raw fun b => .ofSize (natOfBytes b)
  | "int8" => leadingWord 1 raw signedWord
  | "int16" => leadingWord 2 raw signedWord
  | "int32" => leadingWord 4 raw signedWord
  | "int64" => leadingWord 8 raw signedWord
  | other => .error (.unsupported (.scalarType other))

end ScalarType

end ModelGraph
