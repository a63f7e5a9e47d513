import ModelGraph.Machine.Arithmetic
import ModelGraph.Machine.Basic
import ModelGraph.Machine.ScalarType
import ModelGraph.Text.Utf8

/-!
# Instances

Making instances of classes and restoring their saved states. Registered classes have layouts of
their own; instances of script classes begin without attributes.
-/

namespace ModelGraph

open Exec

/-- The argument at a position; a missing one is absent. -/
def argument (arguments : List Value) (i : Nat) : Value := (arguments[i]?).getD .none

namespace Exec

/-- The value that a built-in type makes of its argument. -/
def convert (type : String) (value : Value) : Exec Value := do
  match type, value with
  | "int", v => return v.toWhole
  | "float", v => return v.toFloat
  | "bool", v => return .bool v.truthy
  | "str", .str s => return .str s
  | "str", .none => return .str ""
  | "str", v => return .str (← describe v)
  | "dict", _ => dict
  | _, v => list (← items v)

/-- Gives a new instance of a registered class its attributes. -/
def setUp (constructor : Constructor) (target : Value) (arguments : List Value) :
    Exec Unit := do
  let arg := argument arguments
  match constructor with
  | .plain | .tensor | .storage _ | .compilation => return
  | .argumentNamespace => setAttribute target "args" (arg 0)
  | .device =>
    setAttribute target "type" (arg 0)
    if (arg 1).truthy then setAttribute target "index" (arg 1)
  | .parameter =>
    setAttributes target [("data", arg 0),
      ("requires_grad", if (arg 1).isNone then .bool true else arg 1)]
  | .array => setAttributes target [("subtype", arg 0), ("shape", arg 1), ("dtype", arg 2)]
  | .arrayType =>
    let code := (arg 0).str?.getD ""
    match ScalarType.ofCode? code with
    | none => unsupported (.arrayType code)
    | some type =>
      setAttributes target [("name", .str type.name), ("itemsize", .ofSize type.width),
        ("align", arg 1), ("copy", arg 2)]

/-- Makes an instance of the class with the given number. -/
def construct (id : Nat) (arguments : List Value) : Exec Value := do
  match (← heap).class? (.ref id) with
  | none => typeFault .notClass
  | some c =>
    match c.kind with
    | .native (.storage type) =>
      let size := (argument arguments 0).size?.getD 0
      alloc (.storage ⟨c.module, c.name, .declare type size⟩)
    | .native constructor =>
      let made ← record c.module c.name (some id)
      setUp constructor made arguments
      return made
    | .user => record c.module c.name (some id)
    | .builtin => convert c.name (argument arguments 0)
    | .generic _ =>
      match c.name with
      | "List" | "Tuple" => list (← items (argument arguments 0))
      | "Dict" => dict
      | _ => return .none

/-- How instances of a value's class are made, if the class is registered. -/
def constructor? (v : Value) : Exec (Option Constructor) := do
  let h ← heap
  match ((h.instance? v).bind (·.class?)).bind fun id => h.class? (.ref id) with
  | some { kind := .native c, .. } => return some c
  | _ => return none

/-- The attributes of a tensor that say where its elements are. -/
def setLayout (target storage offset size stride : Value) : Exec Unit :=
  setAttributes target
    [("storage", storage), ("storage_offset", offset), ("size", size), ("stride", stride)]

/-- The name that a class value or a text gives a type. -/
def className? (v : Value) : Exec (Option String) := do
  match v with
  | .str s => return some s
  | _ => return ((← heap).class? v).map fun c => qualify c.module c.name

/-- The number of elements that the dimensions of an array give. -/
def arrayCount (h : Heap) (shape : Value) : Int :=
  match h.items? shape with
  | some dims => (dims.filterMap Value.int?).foldl (fun n d => n * d.toInt) 1
  | none => 1

/-- Turns a record of an array's making into the array: type, shape and data. -/
def restoreArray (target shape type data : Value) : Exec Unit := do
  let h ← heap
  let subtype := (h.attribute? target "subtype").getD .none
  let (module, name) := splitQualified ((← className? subtype).getD "numpy.ndarray")
  let width := (((h.attribute? type "itemsize").bind Value.int?).map Int64.toInt).getD 0
  let data ← match data with
    | .str s =>
      let raw := Text.lowBytes s
      if (raw.length : Int) ≠ width * arrayCount h shape then typeFault .arrayDataSize
      else bytes raw
    | v => pure v
  let fields : Fields := .ofList [("dtype", type), ("shape", shape), ("data", data)]
  match target with
  | .ref id =>
    modifyHeap (·.modify id fun
      | .instance i => .instance { i with module, name, fields, class? := none }
      | o => o)
  | _ => return

/-- Names of the parts of an array type's state. -/
def arrayTypeParts : List String :=
  ["version", "byteorder", "subarray", "names", "fields", "elsize", "alignment", "int_dtypeflags"]

/-- Restores the layout of a registered class from a list; tells whether the class has one. -/
def restoreLayout (constructor : Option Constructor) (target : Value) (state : List Value) :
    Exec Bool := do
  match constructor, state with
  | some .parameter, [data, _, _, _] | some .parameter, [data, _, _, _, _] =>
    setAttribute target "data" data
    return true
  | some .tensor, storage :: offset :: size :: stride :: _ =>
    setLayout target storage offset size stride
    return true
  | some .array, [_, shape, type, _, data] =>
    restoreArray target shape type data
    return true
  | some .array, items => unsupported (.arrayState items.length)
  | some .arrayType, items =>
    if items.length ≠ arrayTypeParts.length then unsupported (.arrayTypeState items.length)
    else
      setAttributes target (arrayTypeParts.zip items)
      return true
  | _, _ => return false

/-- Sets the entries of a dictionary as items of an object. -/
def mergeEntries (target : Value) (entries : Dict) : Exec Unit :=
  modifyHeap fun h => entries.entries.foldl (fun h e => h.setItem target e.1.toValue e.2) h

/-- Whether a list is a state in two parts: each a dictionary or absent, not both absent. -/
def isStatePair (h : Heap) (items : List Value) : Bool :=
  items.length == 2 && items.all (fun v => v.isNone || (h.dict? v).isSome) &&
    items.any fun v => !v.isNone

/-- Merges a state into the attributes of an object: the entries of a dictionary or of a pair of
dictionaries, or the items of a list under their numbers. Any other state is ignored. -/
def mergeState (target state : Value) : Exec Unit := do
  let h ← heap
  match h.dict? state, h.items? state with
  | some entries, _ => mergeEntries target entries
  | none, some items =>
    if isStatePair h items then
      for item in items do
        if let some entries := (← heap).dict? item then mergeEntries target entries
    else
      setAttributes target (items.mapIdx fun i item => (toString i, item))
  | none, none => return

end Exec

/-- Applies a saved state to an object: by the layout of its registered class, else by the method
`__setstate__` if there is one, else by merging. -/
def Host.setState (host : Host) (target state : Value) : Exec Unit := do
  if target.ref?.isNone then return
  let constructor ← constructor? target
  if let some items := (← heap).items? state then
    if ← restoreLayout constructor target items then return
  if constructor.isNone then
    if let some method ← attribute? target "__setstate__" then
      if ((← heap).function? method).isSome then
        let _ ← host.call method (some target) { positional := [state] }
        return
  mergeState target state

end ModelGraph
