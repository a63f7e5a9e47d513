import ModelGraph.Number.FloatText
import ModelGraph.Number.Word
import ModelGraph.Tensor.ElementType

/-!
# Nested values

The decoded form of a tensor: elements in lists of lists, where a mark may stand for the items that
were not decoded. `Nested.decode` reads elements in row-major order and stops at a limit.
-/

namespace ModelGraph

inductive Scalar where
  | bool (value : Bool)
  | int (value : Int64)
  | float (value : Float)
  deriving DecidableEq, Inhabited

namespace Scalar

def text : Scalar → String
  | .bool b => if b then "true" else "false"
  | .int i => toString i.toInt
  | .float x => FloatLayout.element.writeFloat x

end Scalar

namespace ElementLayout

def width : ElementLayout → Nat
  | .truth => 1
  | .unsigned width => width
  | .signed width => width
  | .half => 2
  | .single => 4
  | .double => 8

/-- The element that `width` bytes hold, lowest byte first. -/
def read (layout : ElementLayout) (bytes : Bytes) : Scalar :=
  match layout with
  | .truth => .bool (bytes.any (· ≠ 0))
  | .unsigned _ => .int (Int64.ofNat (natOfBytes bytes))
  | .signed _ => .int (Int64.ofInt (intOfBytes bytes))
  | .half => .float (BinaryFormat.half.decode (natOfBytes bytes)).toFloat
  | .single => .float (BinaryFormat.single.decode (natOfBytes bytes)).toFloat
  | .double => .float (Float.ofBits (UInt64.ofNat (natOfBytes bytes)))

end ElementLayout

inductive Nested where
  | scalar (value : Scalar)
  | list (items : List Nested)
  /-- Stands for the items past the limit. -/
  | truncated
  deriving Inhabited

namespace Nested

/-- The bytes still to decode and the number of elements decoded. -/
structure Progress where
  rest : Bytes
  count : Nat

/-- How elements are decoded: their layout, the order of their bytes, and the most to decode. -/
structure Decoding where
  layout : ElementLayout
  littleEndian : Bool
  limit : Nat

/-- The next element. -/
def element (d : Decoding) (p : Progress) : Nested × Progress :=
  let bytes := p.rest.take d.layout.width
  (.scalar (d.layout.read (if d.littleEndian then bytes else bytes.reverse)),
    ⟨p.rest.drop d.layout.width, p.count + 1⟩)

/-- Up to `n` items, each read by `item`, with a mark where the limit cuts them off. -/
def items (limit : Nat) (item : Progress → Nested × Progress) :
    (n : Nat) → Progress → List Nested × Progress
  | 0, p => ([], p)
  | n + 1, p =>
    if limit ≤ p.count then ([.truncated], p)
    else
      let (first, p) := item p
      let (others, p) := items limit item n p
      (first :: others, p)

/-- The value at one level of nesting. -/
def level (d : Decoding) : (dims : List Nat) → Progress → Nested × Progress
  | [], p => element d p
  | n :: dims, p =>
    let (done, p) := items d.limit (level d dims) n p
    (.list done, p)

/-- Decodes bytes as a tensor of the given dimensions. -/
def decode (d : Decoding) (dims : List Nat) (bytes : Bytes) : Nested :=
  match dims with
  | [] =>
    match (items d.limit (element d) 1 ⟨bytes, 0⟩).1 with
    | value :: _ => value
    | [] => .list []
  | dims => (level d dims ⟨bytes, 0⟩).1

def isTruncation : Nested → Bool
  | .truncated => true
  | _ => false

/-- The lengths of the lists along the first items, marks not counted. -/
def shape : Nested → List Nat
  | .list [] => [0]
  | .list (first :: others) =>
    ((first :: others).filter fun item => !item.isTruncation).length :: first.shape
  | _ => []

mutual

/-- The number of elements. -/
def elementCount : Nested → Nat
  | .scalar _ => 1
  | .list items => elementCountList items
  | .truncated => 0

def elementCountList : List Nested → Nat
  | [] => 0
  | item :: rest => elementCount item + elementCountList rest

end

mutual

/-- Whether the value ends in a mark at some level. -/
def isTruncated : Nested → Bool
  | .list items => endsTruncated items
  | .truncated => true
  | .scalar _ => false

/-- Whether the last item ends in a mark. -/
def endsTruncated : List Nested → Bool
  | [] => false
  | [item] => isTruncated item
  | _ :: item :: rest => endsTruncated (item :: rest)

end

mutual

/-- The text of a value that stands at an indentation: one item on a line, four spaces deeper than
its brackets. -/
def render (indent : String) : Nested → String
  | .scalar value => indent ++ value.text
  | .truncated => indent ++ "..."
  | .list items =>
    let lines := renderItems (indent ++ "    ") items
    indent ++ "[" ++ (if items.isEmpty then "" else "\n") ++ String.intercalate ",\n" lines ++ "\n" ++
      indent ++ "]"

def renderItems (indent : String) : List Nested → List String
  | [] => []
  | item :: rest => render indent item :: renderItems indent rest

end

def text (value : Nested) : String := render "" value

end Nested

end ModelGraph
