import ModelGraph.Object.Heap

/-!
# Layers of weights

Weights are kept in layers: tensors that share the first part of their names. Saved objects hold them
in several shapes; `Heap.layers?` tries the shapes in order: a bare tensor, a list of module records,
a flat mapping from `layer.parameter` to tensors, a mapping from groups to named tensors.
-/

namespace ModelGraph

/-- A named parameter with its tensors, each under the key it was saved by. -/
structure WeightState where
  name : String
  tensors : List (String × Value)
  deriving DecidableEq, Inhabited

structure Layer where
  name : String
  /-- The qualified type, for layers made from module records. -/
  type : Option String := none
  states : List WeightState := []
  attributes : List (String × Value) := []
  deriving DecidableEq, Inhabited

namespace Layer

def addState (l : Layer) (name : String) (tensors : List (String × Value)) : Layer :=
  { l with states := l.states ++ [⟨name, tensors⟩] }

def addAttribute (l : Layer) (name : String) (value : Value) : Layer :=
  { l with attributes := l.attributes ++ [(name, value)] }

/-- Changes the first layer of a name, or a new one at the end. -/
def update (name : String) (change : Layer → Layer) : List Layer → List Layer
  | [] => [change { name }]
  | l :: rest => if l.name = name then change l :: rest else l :: update name change rest

end Layer

/-- The text of a key that can name something. -/
def Value.keyName? : Value → Option String
  | .str s => some s
  | .int i => some (toString i.toInt)
  | _ => Option.none

/-- Name of the entry with the element type of packed parameters. -/
def packedType : String := "_packed_params.dtype"

/-- Name of the entry with the packed parameters. -/
def packedTensors : String := "_packed_params._packed_params"

/-- The text before a suffix. -/
def beforeSuffix? (s suffix : String) : Option String :=
  let length := s.length - suffix.length
  if s.toList.drop length = suffix.toList then some (String.ofList (s.toList.take length)) else none

/-- What an entry of a flat mapping is. -/
inductive FlatEntry where
  | packedType (layer : String) (value : Value)
  | packedTensors (layer : String) (items : List Value)
  | tensor (layer name key : String) (value : Value)

namespace Heap

/-- The data of a parameter; any other value itself. -/
def unwrapped (h : Heap) (v : Value) : Value := (h.tensor? v).getD v

def flatEntry? (h : Heap) (key : String) (v : Value) : Option FlatEntry :=
  if v.isNone then none
  else
    match beforeSuffix? key ("." ++ packedType), beforeSuffix? key ("." ++ packedTensors),
        h.items? v with
    | some layer, _, _ => some (.packedType layer v)
    | none, some layer, some items =>
      if items.all h.isTensor then some (.packedTensors layer items) else none
    | none, _, _ =>
      if h.isTensor v then
        let (layer, name) := splitQualified key
        some (.tensor layer name key v)
      else none

/-- Adds an entry to its layer. A nameless layer with more than four loose tensors is none. -/
def addFlatEntry (h : Heap) (layers : List Layer) : FlatEntry → Option (List Layer)
  | .packedType layer v => some (Layer.update layer (·.addAttribute packedType v) layers)
  | .packedTensors layer items =>
    some (Layer.update layer (·.addState packedTensors (items.map ("", ·))) layers)
  | .tensor layer name key v =>
    let layers := Layer.update layer (·.addState name [(key, h.unwrapped v)]) layers
    if layers.any fun l => layer.isEmpty && l.name.isEmpty && l.states.length > 4 then none
    else some layers

/-- The names of a flat mapping's entries, without that of the metadata. -/
def flatEntries? (h : Heap) (v : Value) : Option (List FlatEntry) := do
  let entries ← h.entries? v
  let named ← entries.mapM fun (key, value) =>
    (key.keyName?.filter (!·.isEmpty)).map fun name => (name, value)
  (named.filter (·.1 != "_metadata")).mapM fun (name, value) => h.flatEntry? name value

def nonEmpty (layers : List Layer) : Option (List Layer) :=
  if layers.isEmpty then none else some layers

/-- Layers of a mapping from `layer.parameter` to tensors. -/
def flatLayers? (h : Heap) (v : Value) : Option (List Layer) := do
  nonEmpty (← (← h.flatEntries? v).foldlM h.addFlatEntry [])

/-- The layer of a bare tensor. -/
def tensorLayers? (h : Heap) (v : Value) : Option (List Layer) :=
  if h.isTensor v then some [Layer.addState { name := "" } "value" [("", h.unwrapped v)]] else none

/-- The layer of a module record: its tensors are states, its other fields attributes. -/
def recordLayer (h : Heap) (i : Instance) : Layer :=
  i.fields.entries.foldl
    (fun l (name, value) =>
      if h.isTensor value then l.addState name [("", h.unwrapped value)]
      else l.addAttribute name value)
    { name := "", type := some (qualify i.module i.name) }

/-- Layers of a list of module records, one of which has tensors. -/
def recordLayers? (h : Heap) (v : Value) : Option (List Layer) := do
  let layers ← (← h.items? v).mapM fun item => (h.instance? item).map h.recordLayer
  if layers.any (!·.states.isEmpty) then some layers else none

/-- Adds a member of a group to its layer: a tensor or a scalar. -/
def addGroupMember (h : Heap) (group : String) (l : Layer) (member : Value × Value) :
    Option Layer := do
  let name ← member.1.keyName?
  if name = "_metadata" then some l
  else if h.isTensor member.2 then
    some (l.addState name [(group ++ "." ++ name, h.unwrapped member.2)])
  else if member.2.ref?.isNone then some (l.addAttribute name member.2)
  else none

def groupLayer? (h : Heap) (group members : Value) : Option Layer := do
  let name ← group.keyName?
  let layer ← (← h.entries? members).foldlM (h.addGroupMember name) { name }
  if layer.states.isEmpty then none else some layer

/-- Layers of a mapping from groups to named tensors. -/
def groupLayers? (h : Heap) (v : Value) : Option (List Layer) := do
  nonEmpty (← (← h.entries? v).mapM fun (group, members) => h.groupLayer? group members)

/-- The layers of an object, in the first shape that it has. -/
def layers? (h : Heap) (v : Value) : Option (List Layer) :=
  [h.tensorLayers?, h.recordLayers?, h.flatLayers?, h.groupLayers?].findSome? (· v)

end Heap

end ModelGraph
