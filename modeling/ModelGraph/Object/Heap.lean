import ModelGraph.Number.FloatText
import ModelGraph.Object.Basic

/-!
# The heap

Object graphs have cycles, so objects live in one growing array and refer to each other by number.
An object is never removed. Attributes of an instance are looked up among its own fields and then
among those of its class; changes touch own fields only.
-/

namespace ModelGraph

structure Heap where
  objects : Array Object := #[]
  deriving Inhabited

namespace Heap

def size (h : Heap) : Nat := h.objects.size

/-- Adds an object; its number is the old size. -/
def push (h : Heap) (o : Object) : Heap := ⟨h.objects.push o⟩

def get? (h : Heap) (id : Nat) : Option Object := h.objects[id]?

def modify (h : Heap) (id : Nat) (change : Object → Object) : Heap := ⟨h.objects.modify id change⟩

/-- The object that a value refers to. -/
def object? (h : Heap) (v : Value) : Option Object := v.ref?.bind h.get?

/-- The items of a list or tuple. -/
def items? (h : Heap) (v : Value) : Option (List Value) :=
  match h.object? v with
  | some (.list items) => some items
  | _ => none

def dict? (h : Heap) (v : Value) : Option Dict :=
  match h.object? v with
  | some (.dict d) => some d
  | _ => none

def bytes? (h : Heap) (v : Value) : Option Bytes :=
  match h.object? v with
  | some (.bytes b) => some b
  | _ => none

def instance? (h : Heap) (v : Value) : Option Instance :=
  match h.object? v with
  | some (.instance i) => some i
  | _ => none

def storage? (h : Heap) (v : Value) : Option StorageObject :=
  match h.object? v with
  | some (.storage s) => some s
  | _ => none

def class? (h : Heap) (v : Value) : Option Class :=
  match h.object? v with
  | some (.class c) => some c
  | _ => none

def function? (h : Heap) (v : Value) : Option FunctionObject :=
  match h.object? v with
  | some (.function f) => some f
  | _ => none

def tag? (h : Heap) (id : Nat) : Option Tag :=
  match h.get? id with
  | some (.instance i) => some i.tag
  | _ => none

def modifyTag (h : Heap) (id : Nat) (change : Tag → Tag) : Heap :=
  h.modify id fun
    | .instance i => .instance { i with tag := change i.tag }
    | o => o

/-- The own fields of an object that has them. -/
def fields? (h : Heap) (id : Nat) : Option Fields := (h.get? id).bind Object.fields?

def typeName? (h : Heap) (v : Value) : Option (String × String) :=
  (h.object? v).bind Object.typeName?

/-- An attribute of the object itself. The attributes of a dictionary are its string keys. -/
def ownAttribute? (h : Heap) (v : Value) (name : String) : Option Value :=
  match h.object? v with
  | some (.dict d) => d.get? (.str name)
  | some o => o.fields?.bind (·.get? name)
  | none => none

/-- What the class of an instance, or a storage, adds to its own attributes. -/
def inheritedAttribute? (h : Heap) (v : Value) (name : String) : Option Value :=
  match h.object? v with
  | some (.instance i) => (i.class?.bind h.fields?).bind (·.get? name)
  | some (.storage s) =>
    if name = "size" then some (.ofSize s.storage.size)
    else if name = "dtype" then some (.str s.storage.elementType.label)
    else none
  | _ => none

def attribute? (h : Heap) (v : Value) (name : String) : Option Value :=
  (h.ownAttribute? v name).or (h.inheritedAttribute? v name)

/-- Whether an object takes named attributes. -/
def takesAttributes (h : Heap) (v : Value) : Bool :=
  match h.object? v with
  | some (.dict _) => true
  | some o => o.fields?.isSome
  | none => false

/-- Sets an own attribute of an object that takes them; any other heap stays as it is. -/
def setAttribute (h : Heap) (v : Value) (name : String) (value : Value) : Heap :=
  match v with
  | .ref id =>
    h.modify id fun
      | .dict d => .dict (d.insert (.str name) value)
      | o => o.mapFields (·.insert name value)
  | _ => h

def setAttributes (h : Heap) (v : Value) (entries : List (String × Value)) : Heap :=
  entries.foldl (fun h e => h.setAttribute v e.1 e.2) h

/-- The place that an index means in a list: a negative one counts from the end. -/
def place? (length : Nat) (index : Int64) : Option Nat :=
  if 0 ≤ index.toInt then some index.toInt.toNat
  else if 0 ≤ index.toInt + length then some (index.toInt + length).toNat
  else none

/-- The item of a list, dictionary or byte string, or the attribute of any other object. -/
def item? (h : Heap) (v : Value) (index : Value) : Option Value :=
  match h.object? v with
  | some (.list items) => (index.int?.bind (place? items.length)).bind (items[·]?)
  | some (.dict d) => d.get? (.ofValue index)
  | some (.bytes b) => (index.size?.bind (b[·]?)).map fun byte => .ofSize byte.toNat
  | some o => index.str?.bind fun name => o.fields?.bind (·.get? name)
  | none => none

/-- Whether an item can be set: at a place of a list or right after its end, under any key of a
dictionary, as a named attribute of any other object. -/
def takesItem (h : Heap) (v : Value) (index : Value) : Bool :=
  match h.object? v with
  | some (.list items) => index.size?.any (· ≤ items.length)
  | some (.dict _) => true
  | some o => index.str?.isSome && o.fields?.isSome
  | none => false

/-- Sets an item where one can be set; any other heap stays as it is. -/
def setItem (h : Heap) (v : Value) (index value : Value) : Heap :=
  match v with
  | .ref id =>
    h.modify id fun
      | .list items =>
        match index.size? with
        | some i => .list (if i = items.length then items ++ [value] else items.set i value)
        | none => .list items
      | .dict d => .dict (d.insert (.ofValue index) value)
      | o =>
        match index with
        | .str name => o.mapFields (·.insert name value)
        | _ => o
  | _ => h

/-- The entries of a dictionary, or the own fields of an object. -/
def entries? (h : Heap) (v : Value) : Option (List (Value × Value)) :=
  match h.object? v with
  | some (.dict d) => some (d.entries.map fun e => (e.1.toValue, e.2))
  | some o => o.fields?.map fun fields => fields.entries.map fun e => (.str e.1, e.2)
  | none => none

def isTensor (h : Heap) (v : Value) : Bool :=
  (h.instance? v).any fun i => i.isPlainTensor || i.isParameter

/-- The tensor itself, or the data of a parameter. -/
def tensor? (h : Heap) (v : Value) : Option Value :=
  (h.instance? v).bind fun i =>
    if i.isPlainTensor then some v
    else if i.isParameter then i.fields.get? "data"
    else none

/-- The dimensions in a tensor's size, if all of them are known. -/
def dims? (h : Heap) (v : Value) : Option (List Nat) :=
  ((h.attribute? v "size").bind h.items?).bind (·.mapM Value.size?)

/-- A short text that says what a value is. -/
def describe (h : Heap) (v : Value) : String :=
  match v with
  | .none => "None"
  | .bool b => if b then "True" else "False"
  | .int i => toString i.toInt
  | .float x => FloatLayout.display.writeFloat x
  | .str s => "'" ++ s ++ "'"
  | .ref id =>
    match h.get? id with
    | some (.list items) => "list[" ++ toString items.length ++ "]"
    | some (.dict d) => "dict[" ++ toString d.size ++ "]"
    | some (.bytes b) => "bytes[" ++ toString b.length ++ "]"
    | some (.namespace n) =>
      match n.package? with
      | some p => "module '" ++ p.name ++ "'"
      | none => "namespace"
    | some (.class c) => "class '" ++ qualify c.module c.name ++ "'"
    | some (.function f) => "function '" ++ qualify f.module f.name ++ "'"
    | some (.instance i) => "'" ++ qualify i.module i.name ++ "' object"
    | some (.storage s) => "'" ++ qualify s.module s.name ++ "' storage"
    | none => "None"

end Heap

end ModelGraph
