import ModelGraph.Json.Basic
import ModelGraph.Object.Heap
import ModelGraph.Operator.Schema
import ModelGraph.Tensor.Basic

/-!
# Attributes

The named values of a node that are no inputs. An attribute is hidden where it says nothing new: the
`training` flag, what its schema hides, and what equals its default; a list equals a default that is
no list if each of its items does.
-/

namespace ModelGraph

namespace Heap

/-- The tensor of a record with a storage. Placeholders have none. -/
def realize? (h : Heap) (v : Value) (name : String) (littleEndian : Bool) : Option Tensor := do
  let tensor ← h.tensor? v
  let storage ← h.storage? (← h.attribute? tensor "storage")
  let offset := ((h.attribute? tensor "storage_offset").bind Value.size?).getD 0
  return .ofStorage name storage.storage offset ((h.dims? tensor).map Shape.mk) littleEndian

/-- The qualified type name of a value. -/
def qualifiedType? (h : Heap) (v : Value) : Option String :=
  (h.typeName? v).map fun t => qualify t.1 t.2

/-- Whether a value is an instance but no tensor. -/
def isRecord (h : Heap) (v : Value) : Bool := (h.instance? v).isSome && !h.isTensor v

end Heap

inductive AttributeValue where
  | none
  | bool (b : Bool)
  | int (i : Int64)
  | float (x : Float)
  | string (s : String)
  | list (items : List AttributeValue)
  | tensor (t : Tensor)
  /-- Any other object, by its type. -/
  | object (type : String)
  deriving Inhabited

namespace AttributeValue

/-- How deep lists are followed. -/
def maxNesting : Nat := 8

/-- Converts a value, with lists down to a number of levels. -/
def convert (h : Heap) (littleEndian : Bool) : (levels : Nat) → Value → AttributeValue
  | levels, v =>
    match v with
    | .none => .none
    | .bool b => .bool b
    | .int i => .int i
    | .float x => .float x
    | .str s => .string s
    | .ref _ =>
      if h.isTensor v then
        match h.realize? v "" littleEndian with
        | some t => .tensor t
        | Option.none => .object "torch.Tensor"
      else
        match h.items? v, h.bytes? v, levels with
        | some items, _, levels + 1 => .list (items.map (convert h littleEndian levels))
        | Option.none, some data, _ => .list (data.map fun b => .int (Int64.ofNat b.toNat))
        | _, _, _ => .object ((h.qualifiedType? v).getD (h.describe v))

def ofValue (h : Heap) (littleEndian : Bool) (v : Value) : AttributeValue :=
  convert h littleEndian maxNesting v

def isInt : AttributeValue → Bool
  | .int _ => true
  | _ => false

def isNumber : AttributeValue → Bool
  | .int _ | .float _ => true
  | _ => false

def isTensor : AttributeValue → Bool
  | .tensor _ => true
  | _ => false

/-- The type that the value itself shows. -/
def type? : AttributeValue → Option String
  | .none => Option.none
  | .bool _ => some "boolean"
  | .int _ => some "int64"
  | .float _ => some "float32"
  | .string _ => some "string"
  | .tensor _ => some "tensor"
  | .object _ => some "object"
  | .list items =>
    if items.all isInt then some "int64[]"
    else if items.all isNumber then some "float32[]"
    else if items.all isTensor then some "tensor[]"
    else some "object"

mutual

/-- The value as JSON; tensors and objects have no such form. A float that is not finite is null. -/
def json? : AttributeValue → Option Json
  | .none => some .null
  | .bool b => some (.bool b)
  | .int i => some (.int i.toInt)
  | .float x => some (if x.isFinite then .float x else .null)
  | .string s => some (.string s)
  | .list items => (jsonItems? items).map .array
  | .tensor _ | .object _ => Option.none

def jsonItems? : List AttributeValue → Option (List Json)
  | [] => some []
  | item :: rest => (json? item).bind fun j => (jsonItems? rest).map (j :: ·)

end

mutual

def text : AttributeValue → String
  | .none => "None"
  | .bool b => if b then "true" else "false"
  | .int i => toString i.toInt
  | .float x => FloatLayout.display.writeFloat x
  | .string s => s
  | .list items => "[" ++ ", ".intercalate (texts items) ++ "]"
  | .tensor t => t.type.text
  | .object type => "<" ++ type ++ ">"

def texts : List AttributeValue → List String
  | [] => []
  | item :: rest => text item :: texts rest

end

end AttributeValue

mutual

/-- Whether a value, which holds no objects, is the same as another: numbers by value, lists item by
item. -/
def Json.same : Json → Json → Bool
  | .null, .null => true
  | .bool a, .bool b => a == b
  | .string a, .string b => a == b
  | .array xs, .array ys => Json.sameItems xs ys
  | x, y =>
    match x.float?, y.float? with
    | some a, some b => a == b
    | _, _ => false

def Json.sameItems : List Json → List Json → Bool
  | [], [] => true
  | x :: xs, y :: ys => Json.same x y && Json.sameItems xs ys
  | _, _ => false

end

/-- Whether a value equals a default, or is a list of items that each equal it. -/
def Json.isDefault (value default : Json) : Bool :=
  value.same default ||
    match value with
    | .array items => !default.isArray && items.all (·.same default)
    | _ => false

structure Attribute where
  name : String
  type : Option String
  value : AttributeValue
  visible : Bool
  deriving Inhabited

namespace Attribute

/-- The attribute of a name, typed and hidden after its schema. -/
def make (schema : Option Operator.Parameter) (name : String) (value : AttributeValue) :
    Attribute :=
  if name = "training" then { name, type := some "boolean", value, visible := false }
  else
    { name
      type := (schema.bind (·.type)).or value.type?
      value
      visible :=
        match schema with
        | none => true
        | some p =>
          p.visible &&
            match p.default, value.json? with
            | some default, some json => !json.isDefault default
            | _, _ => true }

/-- Whether a value is a list of module records. -/
def isModuleList (h : Heap) (v : Value) : Bool :=
  (h.items? v).any fun items =>
    !items.isEmpty && items.all fun i => (h.typeName? i).any (·.1.startsWith "torch.nn")

/-- The attribute for a value of the heap; module lists are not shown. -/
def ofValue (h : Heap) (littleEndian : Bool) (schema : Option Operator.Parameter) (name : String)
    (v : Value) : Attribute :=
  make schema name
    (if isModuleList h v then .string "?" else AttributeValue.ofValue h littleEndian v)

end Attribute

end ModelGraph
