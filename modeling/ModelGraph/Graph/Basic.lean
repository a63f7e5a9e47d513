import ModelGraph.Graph.Attribute
import ModelGraph.Operator.Catalog

/-!
# Graphs

A graph has slots for its inputs and outputs, and nodes. The arguments of slots are names of values;
an argument with an initializer stands for a tensor of the checkpoint. Nodes are read from a snapshot:
the heap after a load, the catalog that types their attributes, and the byte order of the tensors.
-/

namespace ModelGraph

/-- A value that a slot takes or gives. -/
structure Argument where
  name : String := ""
  /-- The type, where it is known without an initializer. -/
  declaredType : Option TensorType := none
  initializer? : Option Tensor := none
  deriving DecidableEq, Inhabited

namespace Argument

/-- A value known by name only. -/
def named (name : String) : Argument := { name }

/-- A tensor without name. -/
def ofTensor (t : Option Tensor) : Argument := { initializer? := t }

/-- The type of the initializer, or else the declared one. -/
def type? (a : Argument) : Option TensorType :=
  match a.initializer? with
  | some t => some t.type
  | none => a.declaredType

/-- The name in the text of a node. -/
def shownName (a : Argument) : String := if a.name.isEmpty then "<init>" else a.name

end Argument

/-- A named input or output. -/
structure Slot where
  name : String
  visible : Bool := true
  arguments : List Argument
  deriving DecidableEq, Inhabited

/-- A visible slot for one value. -/
def Slot.single (name : String) (argument : Argument) : Slot := { name, arguments := [argument] }

/-- The arguments of several slots, in order. -/
def argumentsOf (slots : List Slot) : List Argument := slots.flatMap (·.arguments)

structure Node where
  /-- The type of operator or module, with the suffix of an overload. -/
  type : String
  /-- The name; calls without module have none. -/
  name : String := ""
  /-- The path of the containers around a module. -/
  group : String := ""
  inputs : List Slot := []
  outputs : List Slot := []
  attributes : List Attribute := []
  deriving Inhabited

namespace Node

/-- The type without the suffix of an overload. -/
def baseType (n : Node) : String := Operator.baseName n.type

/-- Whether the type is that of a library module with operations of its own. -/
def isFunction (n : Node) : Bool :=
  n.type.startsWith "torch.nn.modules." && n.type != "torch.nn.modules.module.Module"

/-- The names of all values of several slots. -/
def shownNames (slots : List Slot) : String :=
  ", ".intercalate ((argumentsOf slots).map (·.shownName))

def text (n : Node) : String :=
  n.baseType ++ (if n.name.isEmpty then "" else " '" ++ n.name ++ "'") ++
    (if n.group.isEmpty then "" else " [" ++ n.group ++ "]") ++
    " (" ++ shownNames n.inputs ++ ") -> (" ++ shownNames n.outputs ++ ")"

end Node

structure Graph where
  /-- The name; module trees have none. -/
  name : String := ""
  /-- The type of the root module. -/
  type : Option String := none
  inputs : List Slot := []
  outputs : List Slot := []
  nodes : List Node := []
  deriving Inhabited

namespace Graph

/-- The first node of a name. -/
def node? (g : Graph) (name : String) : Option Node := g.nodes.find? (·.name = name)

/-- The tensors that the inputs of nodes stand for. -/
def initializers (g : Graph) : List Tensor :=
  g.nodes.flatMap fun n => (argumentsOf n.inputs).filterMap (·.initializer?)

def initializerCount (g : Graph) : Nat := g.initializers.length

def summary (g : Graph) : String :=
  "Graph '" ++ (if g.name.isEmpty then "<unnamed>" else g.name) ++ "': " ++
    toString g.nodes.length ++ " nodes, " ++ toString g.inputs.length ++ " inputs, " ++
    toString g.outputs.length ++ " outputs, " ++ toString g.initializerCount ++ " initializers"

def text (g : Graph) : String :=
  g.summary ++ "\n" ++ String.join (g.nodes.map fun n => "  " ++ n.text ++ "\n")

end Graph

structure Snapshot where
  heap : Heap
  catalog : Operator.Catalog
  littleEndian : Bool := true
  deriving Inhabited

namespace Snapshot

/-- The tensor of a value that has one. -/
def tensor? (s : Snapshot) (v : Value) (name : String) : Option Tensor :=
  s.heap.realize? v name s.littleEndian

/-- An attribute of a node of the given type. -/
def attributeOf (s : Snapshot) (type name : String) (v : Value) : Attribute :=
  .ofValue s.heap s.littleEndian (s.catalog.attribute? type name) name v

/-- The qualified type name of a value, empty for values without. -/
def typeText (s : Snapshot) (v : Value) : String := (s.heap.qualifiedType? v).getD ""

/-- The entries of a mapping attribute of a record. -/
def entriesOf (s : Snapshot) (v : Value) (name : String) : List (Value × Value) :=
  ((s.heap.attribute? v name).bind s.heap.entries?).getD []

/-- The text of a key. -/
def keyText (s : Snapshot) (key : Value) : String := key.str?.getD (s.heap.describe key)

end Snapshot

end ModelGraph
