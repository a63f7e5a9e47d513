import ModelGraph.Graph.Basic

/-!
# Trees of scripted modules

Which module holds a tensor or module, and under which field. A tensor whose tag names a value that
was used once is known by that name.
-/

namespace ModelGraph

/-! ## Walks over objects

Objects in the order in which they are reached, each once. `limit` bounds how many are visited; the
number of all objects is enough. -/

/-- The items that are not among those seen, each once. -/
def unseen (seen items : List Nat) : List Nat := (items.filter fun i => !seen.contains i).eraseDups

/-- Visits what is waiting first, then what follows it. -/
def breadthFirst (next : Nat → List Nat) : (limit : Nat) → (seen queue : List Nat) → List Nat
  | 0, _, _ => []
  | _ + 1, _, [] => []
  | limit + 1, seen, id :: queue =>
    let new := unseen seen (next id)
    id :: breadthFirst next limit (seen ++ new) (queue ++ new)

/-- Visits what follows an object before what was waiting. Of equal items the last is kept. -/
def depthFirst (next : Nat → List Nat) : (limit : Nat) → (seen stack : List Nat) → List Nat
  | 0, _, _ => []
  | _ + 1, _, [] => []
  | limit + 1, seen, id :: stack =>
    let new := (unseen seen (next id).reverse).reverse
    id :: depthFirst next limit (seen ++ new) (new ++ stack)

/-! ## Trees -/

/-- A tensor that the value of a name stands for. -/
structure KnownTensor where
  object : Nat
  /-- Placeholders have none. -/
  tensor? : Option Tensor
  deriving DecidableEq, Inhabited

structure ModuleTree where
  /-- The module that holds an object; of several the last one. -/
  owners : OrderedMap Nat Nat := {}
  /-- The field that a module was first found under. -/
  fields : OrderedMap Nat String := {}
  tensors : OrderedMap Nat Tensor := {}
  /-- Tensors by the names of values. -/
  known : OrderedMap String KnownTensor := {}
  deriving Inhabited

/-- Records that wrap a compiled model; their fields are no modules. -/
def compilationType : String × String := ("__torch__.torch.classes._nnapi", "Compilation")

namespace Snapshot

/-- The fields of a module. -/
def moduleFields (s : Snapshot) (module : Nat) : List (String × Value) :=
  ((s.heap.fields? module).map (·.entries)).getD []

/-- The fields that are walked. -/
def walkedFields (s : Snapshot) (module : Nat) : List (String × Value) :=
  if s.heap.typeName? (.ref module) = some compilationType then [] else s.moduleFields module

/-- The records among some fields. -/
def records (s : Snapshot) (fields : List (String × Value)) : List Nat :=
  fields.filterMap fun f => if s.heap.isRecord f.2 then f.2.ref? else none

/-- The tensor fields of a module. -/
def parameters (s : Snapshot) (module : Nat) : List (String × Nat) :=
  (s.moduleFields module).filterMap fun (name, v) =>
    if s.heap.isTensor v then v.ref?.map (name, ·) else none

/-- The modules below a root, the root included, level by level. -/
def modulesBelow (s : Snapshot) (root : Nat) : List Nat :=
  breadthFirst (fun id => s.records (s.walkedFields id)) (s.heap.size + 1) [root] [root]

end Snapshot

namespace ModuleTree

/-- Enters a tensor that a module holds. -/
def addTensor (s : Snapshot) (module : Nat) (t : ModuleTree) (v : Value) (id : Nat) : ModuleTree :=
  let tensors :=
    match t.tensors.get? id, s.tensor? v "" with
    | none, some tensor => t.tensors.insert id tensor
    | _, _ => t.tensors
  let known :=
    match (s.heap.tag? id).filter (·.count = 1) with
    | some { name? := some name, .. } => t.known.insert name ⟨id, tensors.get? id⟩
    | _ => t.known
  { t with owners := t.owners.insert id module, tensors, known }

/-- Enters a module that another holds. -/
def addModule (module : Nat) (t : ModuleTree) (name : String) (id : Nat) : ModuleTree :=
  { t with
    owners := t.owners.insert id module
    fields := if t.fields.contains id then t.fields else t.fields.insert id name }

def addField (s : Snapshot) (module : Nat) (t : ModuleTree) (field : String × Value) : ModuleTree :=
  match field.2.ref? with
  | none => t
  | some id =>
    if s.heap.isTensor field.2 then t.addTensor s module field.2 id
    else if s.heap.isRecord field.2 then t.addModule module field.1 id
    else t

/-- Enters the constants, by the names of their tags. -/
def ofConstants (s : Snapshot) (constants : List Value) : ModuleTree :=
  constants.foldl
    (fun t v =>
      match v.ref?.bind fun id => (s.heap.tag? id).bind fun tag => tag.name?.map (id, ·) with
      | some (id, name) => { t with known := t.known.insert name ⟨id, s.tensor? v name⟩ }
      | none => t)
    {}

/-- Enters all that the modules below a root hold. -/
def addBelow (s : Snapshot) (t : ModuleTree) (root : Nat) : ModuleTree :=
  (s.modulesBelow root).foldl
    (fun t module => (s.walkedFields module).foldl (addField s module) t) t

/-- The fields that lead to a module from the last owner without a name, at most `levels` of them. -/
def path (t : ModuleTree) : (levels : Nat) → (module : Nat) → List String
  | 0, _ => []
  | levels + 1, module =>
    match t.fields.get? module with
    | none => []
    | some field => ((t.owners.get? module).map (path t levels)).getD [] ++ [field]

/-- The dotted path from the root down to a module; the root has none. -/
def dottedPath? (t : ModuleTree) (module : Nat) : Option String :=
  if t.fields.contains module then
    some (".".intercalate (t.path (t.fields.size + 1) module))
  else none

end ModuleTree

end ModelGraph
