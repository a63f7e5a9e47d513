import ModelGraph.Graph.Basic

/-!
# Graphs as JSON

Tensors are written by name and type, without their bytes; objects by their type alone.
-/

namespace ModelGraph

/-- Null for nothing. -/
def Json.orNull {α : Type} (write : α → Json) : Option α → Json
  | some a => write a
  | none => .null

/-- A list of sizes. -/
def Json.ofSizes (sizes : List Nat) : Json := .array (sizes.map fun n => .int (n : Nat))

def TensorType.json (t : TensorType) : Json :=
  .object [("dtype", .orNull (fun e => .string e.tag) t.elementType),
    ("shape", .orNull (fun s => .object [("dims", .ofSizes s.dims)]) t.shape)]

def Tensor.json (t : Tensor) : Json := .object [("name", .string t.name), ("type", t.type.json)]

mutual

def AttributeValue.json : AttributeValue → Json
  | .none => .null
  | .bool b => .bool b
  | .int i => .int i.toInt
  | .float x => if x.isFinite then .float x else .null
  | .string s => .string s
  | .list items => .array (AttributeValue.jsons items)
  | .tensor t => t.json
  | .object type => .string type

def AttributeValue.jsons : List AttributeValue → List Json
  | [] => []
  | item :: rest => item.json :: AttributeValue.jsons rest

end

/-- A member for something that may be absent. -/
def optionalMember {α : Type} (name : String) (write : α → Json) :
    Option α → List (String × Json)
  | some a => [(name, write a)]
  | none => []

def Attribute.json (a : Attribute) : Json :=
  .object (("name", .string a.name) :: optionalMember "type" .string a.type ++
    [("value", a.value.json), ("visible", .bool a.visible)])

def Argument.json (a : Argument) : Json :=
  .object [("name", .string a.name), ("type", .orNull (fun t => .string t.text) a.type?),
    ("initializer", .orNull Tensor.json a.initializer?)]

def Slot.json (s : Slot) : Json :=
  .object [("name", .string s.name), ("visible", .bool s.visible),
    ("arguments", .array (s.arguments.map Argument.json))]

def Node.json (n : Node) : Json :=
  .object [("type", .string n.baseType), ("name", .string n.name), ("group", .string n.group),
    ("inputs", .array (n.inputs.map Slot.json)), ("outputs", .array (n.outputs.map Slot.json)),
    ("attributes", .array (n.attributes.map Attribute.json))]

def Graph.json (g : Graph) : Json :=
  .object (("name", .string g.name) :: optionalMember "type" .string g.type ++
    [("inputs", .array (g.inputs.map Slot.json)), ("outputs", .array (g.outputs.map Slot.json)),
      ("nodes", .array (g.nodes.map Node.json))])

end ModelGraph
