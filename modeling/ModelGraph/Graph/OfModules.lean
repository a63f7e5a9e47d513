import ModelGraph.Graph.Basic
import ModelGraph.Weights.Find

/-!
# Graphs of module trees and of weights

Every module without submodules becomes a node. The children of a sequence are chained: each takes
the name of the one before as its input. Sequences within open groups, and the group of a node is the
path of their keys. Of a set of weights every layer becomes a node with its tensors as inputs, and
nothing connects the nodes.
-/

namespace ModelGraph

/-- The package of the modules that hold others. -/
def containerPackage : String := "torch.nn.modules.container"

def sequentialType : String := containerPackage ++ ".Sequential"

namespace Snapshot

/-- The submodules of a record, by their keys; nothing if it can have none. -/
def submodules? (s : Snapshot) (v : Value) : Option (List (String × Value)) := do
  let entries ← s.heap.entries? (← (s.heap.attribute? v "_modules").filter (!·.isNone))
  return entries.map fun (key, child) => (s.keyText key, child)

def isSequential (s : Snapshot) (v : Value) : Bool := s.heap.qualifiedType? v == some sequentialType

/-- Whether a record becomes a node: it has a package, is no container and holds no modules. -/
def isLeaf (s : Snapshot) (v : Value) : Bool :=
  let package := ((s.heap.typeName? v).map (·.1)).getD ""
  !package.isEmpty && package != containerPackage && ((s.submodules? v).map List.isEmpty).getD true

/-- The slots of a module's tensors. Each stored entry stands for the next input of the schema; the
slot takes its name from there, or else from the entry's key. Entries without tensor have no slot. -/
def tensorSlots (s : Snapshot) : List (Value × Value) → List Operator.Parameter → List Slot
  | [], _ => []
  | (key, v) :: entries, parameters =>
    let declared := (parameters.head?.map (·.name)).getD ""
    let slots := tensorSlots s entries parameters.tail
    match s.tensor? v "" with
    | none => slots
    | some t =>
      { name := if declared.isEmpty then s.keyText key else declared
        visible := (parameters.head?.map (·.visible)).getD true
        arguments := [.ofTensor t] } :: slots

/-- The inputs that the schema of a type declares; without any, one named `input`. -/
def declaredInputs (s : Snapshot) (type : String) : List Operator.Parameter :=
  match (s.catalog.schemas type).head?.map (·.inputs) with
  | some (p :: rest) => p :: rest
  | _ => [.named "input"]

/-- The attributes of a record whose names do not begin with an underscore. -/
def publicAttributes (s : Snapshot) (type : String) (v : Value) : List Attribute :=
  let fields := ((v.ref?.bind s.heap.fields?).map (·.entries)).getD []
  (fields.filter fun f => !f.1.startsWith "_").map fun (name, value) => s.attributeOf type name value

/-- The node of a module under a key. It takes the values `carried` as its first input; a link of a
chain gives its own name. -/
def moduleNode (s : Snapshot) (groups : List String) (key : String) (v : Value)
    (carried : List String) (isLink : Bool) : Node :=
  let type := s.typeText v
  let group := "/".intercalate groups
  let name := if group.isEmpty then key else group ++ "/" ++ key
  let declared := s.declaredInputs type
  let first : List Slot :=
    if carried.isEmpty then []
    else [{ name := (declared.head?.map (·.name)).getD "input", arguments := carried.map .named }]
  { type, name, group
    inputs := first ++
      s.tensorSlots (s.entriesOf v "_parameters" ++ s.entriesOf v "_buffers") declared.tail
    outputs := if isLink then [.single "output" (.named name)] else []
    attributes := s.publicAttributes type v }

/-- The nodes of a subtree, and the values that its next sibling takes. -/
structure Walked where
  nodes : List Node := []
  carried : List String := []
  deriving Inhabited

/-- A module that should hold others and cannot, by its type. -/
structure NoSubmodules where
  type : String
  deriving DecidableEq, Inhabited

/-- Visits the children of a module one after another. -/
def walkChildren (isLink : Bool)
    (visit : (key : String) → Value → (carried : List String) → Except NoSubmodules Walked) :
    List (String × Value) → (carried : List String) → Except NoSubmodules Walked
  | [], carried => return { carried }
  | (key, v) :: rest, carried =>
    if v.isNone then walkChildren isLink visit rest carried
    else do
      let child ← visit key v (if isLink then carried else [])
      let others ← walkChildren isLink visit rest child.carried
      return { others with nodes := child.nodes ++ others.nodes }

/-- Walks a module tree down to a number of levels. -/
def walk (s : Snapshot) :
    (levels : Nat) → (groups : List String) → Value → (carried : List String) →
      Except NoSubmodules Walked
  | 0, _, _, carried => return { carried }
  | levels + 1, groups, v, carried =>
    if s.isLeaf v then return { nodes := [s.moduleNode groups "" v carried false] }
    else
      match s.submodules? v with
      | none => throw ⟨s.typeText v⟩
      | some children =>
        let isLink := s.isSequential v
        let visit (key : String) (child : Value) (carried : List String) :=
          if s.isSequential child then walk s levels (groups ++ [key]) child carried
          else
            let node := s.moduleNode groups key child carried isLink
            return { nodes := [node], carried := [node.name] }
        walkChildren isLink visit children carried

end Snapshot

/-- The graph of a module tree. No path in a tree is longer than there are objects. -/
def Graph.ofModules (s : Snapshot) (root : Value) : Except Snapshot.NoSubmodules Graph := do
  let walked ← s.walk (s.heap.size + 1) [] root []
  return { type := s.heap.qualifiedType? root, nodes := walked.nodes }

/-! ## Weights -/

/-- The type of layers whose own is not known. -/
def defaultLayerType : String := "torch.nn.Module"

/-- The slot of a layer's parameter. -/
def WeightState.slot (s : Snapshot) (w : WeightState) : Slot where
  name := w.name
  arguments := w.tensors.map fun (key, v) => { name := key, initializer? := s.tensor? v key }

def Layer.node (s : Snapshot) (l : Layer) : Node :=
  let type := l.type.getD defaultLayerType
  { type
    name := l.name
    inputs := l.states.map (·.slot s)
    attributes := l.attributes.map fun (name, v) => s.attributeOf type name v }

/-- The graph of a set of weights. -/
def Graph.ofWeights (s : Snapshot) (w : WeightSet) : Graph where
  name := w.name
  nodes := w.layers.map (·.node s)

end ModelGraph
