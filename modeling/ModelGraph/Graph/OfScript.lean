import ModelGraph.Graph.ModuleTree
import ModelGraph.Trace.Basic

/-!
# Graphs of scripted modules

Every traced call becomes a node. A call that uses all tensors of one module stands for that module:
the node takes the module's path as its name, and the tensors as initializers. Modules with tensors
that no call stands for become nodes of their own.
-/

namespace ModelGraph

/-- The type of the nodes of modules that no call stands for. -/
def plainModuleType : String := "torch.nn.modules.module.Module"

/-- How the names of constants begin. -/
def constantStem : String := "CONSTANTS.c"

/-- Counts updates in training; calls do not use it. -/
def updateCounter : String := "num_batches_tracked"

/-- What the values of a call have shown so far about the module that they belong to. -/
structure Claim where
  owner? : Option Nat := none
  /-- How many values are tensors of the owner or constants. -/
  count : Nat := 0
  /-- Whether all known values belong to one module or are constants. -/
  fits : Bool := true
  deriving DecidableEq, Inhabited

namespace ModuleTree

/-- Reads one value of a call. A constant becomes an initializer at once. -/
def claimValue (t : ModuleTree) (v : TracedValue) : StateM Claim Argument := do
  let c ← get
  match c.fits, t.known.get? v.name with
  | true, some known =>
    match (t.owners.get? known.object).filter fun owner => c.owner?.all (· = owner) with
    | some owner =>
      set { c with owner? := some owner, count := c.count + 1 }
      return .named v.name
    | none =>
      if v.name.startsWith constantStem then
        set { c with count := c.count + 1 }
        return { name := v.name, initializer? := known.tensor? }
      else
        set { c with fits := false }
        return .named v.name
  | _, _ => return .named v.name

/-- Gives an argument the tensor that its name is known for. -/
def fill (t : ModuleTree) (a : Argument) : Argument :=
  match (t.known.get? a.name).bind (·.tensor?) with
  | some tensor => { a with initializer? := some tensor }
  | none => a

/-- How many tensors a call must use to stand for a module. -/
def claimable (s : Snapshot) (module : Nat) : Nat :=
  ((s.parameters module).filter (·.1 != updateCounter)).length

/-- The arguments of a call, and the module that it stands for. -/
def claim (t : ModuleTree) (s : Snapshot) (call : TracedCall) :
    List (List Argument) × Option Nat :=
  let (arguments, c) := (call.inputs.mapM (m := StateM Claim) (·.mapM t.claimValue)).run {}
  match c.owner?.filter fun owner => c.fits && claimable s owner == c.count with
  | some owner => (arguments.map (·.map t.fill), some owner)
  | none => (arguments, none)

/-- Slots named after the parameters of a schema, those beyond by their number. -/
def nameSlots (parameters : List Operator.Parameter) (slots : List (List Argument)) : List Slot :=
  slots.zipIdx.map fun (arguments, i) =>
    { name := (parameters[i]?.map (·.name)).getD (toString i), arguments }

/-- The node of a call, and the module that it stands for. -/
def callNode (t : ModuleTree) (s : Snapshot) (call : TracedCall) : Node × Option Nat :=
  let (arguments, owner?) := t.claim s call
  ({ type := call.schema.name
     name := (owner?.bind t.dottedPath?).getD ""
     inputs := nameSlots call.schema.inputs arguments
     outputs := nameSlots call.schema.outputs
       (call.outputs.map fun slot => slot.map fun v => .named v.name)
     attributes := call.attributes.map fun (name, v) => s.attributeOf call.schema.name name v },
    owner?)

/-- The slots of a tensor field: always an input, and an output if the tensor names a value. -/
def moduleNode (t : ModuleTree) (s : Snapshot) (module : Nat) : Node where
  type := plainModuleType
  name := (t.dottedPath? module).getD ""
  inputs := (s.parameters module).map fun (name, id) =>
    .single name (.ofTensor (t.tensors.get? id))
  outputs := (s.parameters module).filterMap fun (name, id) =>
    ((s.heap.tag? id).bind (·.name?)).map fun value => .single name (.named value)

/-- The modules that are left as nodes: they hold tensors, and no call stands for them. -/
def remaining (s : Snapshot) (root : Nat) (claimed : List Nat) : List Nat :=
  let next (id : Nat) := s.records ((s.moduleFields id).filter fun f => !f.1.startsWith "__")
  (depthFirst next (s.heap.size + 1) [root] [root]).filter fun id =>
    !(s.parameters id).isEmpty && !claimed.contains id

end ModuleTree

/-- Slots that are named like their values. -/
def valueSlots (names : List String) : List Slot := names.map fun name => .single name (.named name)

/-- The graph of a scripted module, with the values that are bound as constants. -/
def Graph.ofScript (s : Snapshot) (constants : List Value) (root : Value) (trace? : Option Trace) :
    Graph :=
  let base := ModuleTree.ofConstants s constants
  let tree := (root.ref?.map (base.addBelow s)).getD base
  let trace := trace?.getD default
  let calls := trace.calls.map (tree.callNode s)
  let claimed := calls.filterMap (·.2)
  let modules := (root.ref?.map fun id => ModuleTree.remaining s id claimed).getD []
  { name := ((s.heap.typeName? root).map (·.2)).getD ""
    type := s.heap.qualifiedType? root
    inputs := valueSlots trace.inputs
    outputs := valueSlots trace.outputs
    nodes := calls.map (·.1) ++ modules.map (tree.moduleNode s) }

end ModelGraph
