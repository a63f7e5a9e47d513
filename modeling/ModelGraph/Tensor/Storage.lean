import ModelGraph.Number.Word
import ModelGraph.Tensor.ElementType

/-!
# Shapes and storages

The dimensions of a tensor come from files, so counts are nothing when they pass the largest size. A
shape without dimensions is that of one element.

A storage is a typed run of elements that tensors share. It is declared before its bytes are known. A
view shares the bytes of what it views, from some byte on; `Storage.bytes?` shows a storage's own bytes,
cut to what there is.
-/

namespace ModelGraph

structure Shape where
  dims : List Nat
  deriving DecidableEq, Repr, Inhabited

namespace Shape

def rank (s : Shape) : Nat := s.dims.length

/-- The product of the dimensions, taken from the left; nothing once it passes the largest size. -/
def elementCount? (s : Shape) : Option Nat :=
  s.dims.foldl (fun count d => count.bind (checkedMul · d)) (some 1)

/-- Bytes that the elements occupy without gaps. -/
def byteLength? (s : Shape) (t : ElementType) : Option Nat :=
  s.elementCount?.bind (checkedMul · t.width)

/-- The dimensions between brackets; nothing for rank zero. -/
def text (s : Shape) : String :=
  if s.dims.isEmpty then ""
  else "[" ++ String.intercalate "," (s.dims.map toString) ++ "]"

end Shape

structure Storage where
  elementType : ElementType
  /-- The declared number of elements. -/
  size : Nat
  data : Option Bytes
  /-- Where in the data the storage begins. -/
  offset : Nat
  deriving DecidableEq, Inhabited

namespace Storage

/-- A storage without data. -/
def declare (t : ElementType) (size : Nat) : Storage := ⟨t, size, none, 0⟩

/-- Bytes that the declared elements occupy. -/
def byteLength? (s : Storage) : Option Nat := checkedMul s.size s.elementType.width

/-- Fills a storage; it then begins with the data. -/
def fill (s : Storage) (data : Bytes) : Storage := { s with data := some data, offset := 0 }

/-- The data and where in it the storage begins. -/
def buffer? (s : Storage) : Option (Bytes × Nat) := s.data.map (·, s.offset)

/-- The storage's bytes, as far as the data goes. -/
def bytes? (s : Storage) : Option Bytes :=
  s.data.map fun data =>
    let start := min s.offset data.length
    let stop :=
      match s.byteLength?.bind (checkedAdd s.offset ·) with
      | some stop => min stop data.length
      | none => data.length
    (data.drop start).take (stop - start)

/-- `size` elements from element `offset` on. -/
def view (s : Storage) (offset size : Nat) : Storage :=
  { s with size, offset := saturatingAdd (saturatingMul offset s.elementType.width) s.offset }

end Storage

end ModelGraph
