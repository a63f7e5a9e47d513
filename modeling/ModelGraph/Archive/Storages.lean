import ModelGraph.Archive.Source
import ModelGraph.Pickle.Load
import ModelGraph.Weights.Find

/-!
# Restoring storages

What all layouts share: making and filling storages, checking the record about the system that wrote
a checkpoint, and telling what the root object is.
-/

namespace ModelGraph

/-- What the root of a checkpoint is. -/
inductive Content where
  /-- A tree of modules. -/
  | module (root : Value)
  /-- Named tensors alone. -/
  | weights (sets : List WeightSet)
  /-- A module with code that can be traced. -/
  | script (root : Value)
  deriving DecidableEq, Inhabited

/-- What a load gives. -/
structure Loaded where
  content : Content
  littleEndian : Bool := true
  /-- Modules whose code stands in an entry of its own. -/
  codeEntries : List (Value × String) := []
  deriving DecidableEq, Inhabited

/-- What a root without code is: a module tree before weights. -/
def Heap.classify (h : Heap) (root : Value) : Except LoadError Content :=
  match h.moduleTree? root, h.weights? root with
  | some m, _ => .ok (.module m)
  | none, some sets => .ok (.weights sets)
  | none, none => .error .unclassifiable

/-- An element count, which must not be negative. -/
def elementCount (size : Int64) : Except LoadError Nat :=
  match sizeOfInt64? size with
  | some n => .ok n
  | none => .error (.protocol (.storageSize size))

/-- The element count in a value; whatever is no integer counts as zero. -/
def declaredCount (v : Value) : Except LoadError Nat := elementCount (v.int?.getD 0)

/-- The text of a key that storages go by. -/
def keyText (key : Value) : Except LoadError String :=
  match key.keyName? with
  | some text => .ok text
  | none => .error (.unresolved key.detailed)

namespace Restore

variable {τ : Type}

/-- Makes a storage of a class, which may be given by its name. -/
def newStorage (type : Value) (size : Nat) : Restore τ Value := do
  let made ← Pickle.callValue type [.ofSize size]
  let h ← heap
  if (h.storage? made).isSome then return made
  else throw (.format (.storageType (h.describe type)))

/-- Puts another storage into a storage object. -/
def setStorage (target : Value) (change : Storage → Storage) : Restore τ Unit :=
  match target with
  | .ref id => modifyHeap (·.modify id fun
      | .storage s => .storage { s with storage := change s.storage }
      | o => o)
  | _ => return

def fillStorage (target : Value) (data : Bytes) : Restore τ Unit :=
  setStorage target (·.fill data)

/-- The bytes that a storage's declared elements take. -/
def storageLength (v : Value) : Restore τ Nat := do
  match (← heap).storage? v with
  | none => return 0
  | some s =>
    match s.storage.byteLength? with
    | some n => return n
    | none => throw (.protocol (.storageTooLarge s.storage.size))

/-- Runs an action with a table of its own. -/
def withTable {σ α : Type} (table : σ) (action : Restore σ α) : Restore τ α := do
  let result ← modifyGet fun w =>
    let (result, inner) := action.run { machine := w.machine, table }
    (result, { w with machine := inner.machine })
  ofExcept result

/-- Runs an action on a machine. -/
def on {α : Type} (machine : Machine) (table : τ) (action : Restore τ α) :
    Except LoadError α × Machine :=
  let (result, w) := action.run { machine, table }
  (result, w.machine)

end Restore

/-- Sizes in bytes that the system record must not contradict. -/
def typeSizes : List (String × Int64) := [("int", 4), ("long", 4), ("short", 2)]

/-- Checks the record about the system that wrote a checkpoint; whether it was little-endian. -/
def Heap.checkSystem (h : Heap) (record : Value) (protocol : Int64) : Except LoadError Bool := do
  let entry (name : String) := h.item? record (.str name)
  let declared := (entry "protocol_version").bind Value.int?
  if declared ≠ some protocol then
    let found := (declared.map fun v => toString v.toInt).getD "None"
    throw (.protocol (.version ("'" ++ found ++ "'")))
  if let some sizes := entry "type_sizes" then
    for (name, expected) in typeSizes do
      match (h.item? sizes (.str name)).bind Value.int? with
      | some size => if size ≠ expected then throw (.protocol (.typeSize name size))
      | none => pure ()
  return ((entry "little_endian").bind Value.bool?).getD true

end ModelGraph
