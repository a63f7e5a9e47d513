import ModelGraph.Object.Value
import ModelGraph.Script.Syntax
import ModelGraph.Tensor.Storage
import ModelGraph.Text.Basic

/-!
# Objects

The kinds of objects on the heap. Built-in behaviour is a closed set of tags: `Constructor` says
what the making of an instance does and `Primitive` what the call of a function does.
-/

namespace ModelGraph

/-- `module.name`, or the name alone if there is no module. -/
def qualify (module name : String) : String :=
  if module.isEmpty then name else module ++ "." ++ name

/-- A qualified name cut at its last dot: module and name. -/
def splitQualified (name : String) : String × String :=
  let reversed := name.toList.reverse
  let last := reversed.takeWhile (· != '.')
  match reversed.drop last.length with
  | [] => ("", name)
  | _ :: module => (String.ofList module.reverse, String.ofList last.reverse)

/-- How an instance of a registered class is made. -/
inductive Constructor where
  /-- A bare record. -/
  | plain
  | argumentNamespace
  | device
  | parameter
  /-- A storage of the given element type. -/
  | storage (type : ElementType)
  /-- A tensor that is laid out by its restored state. -/
  | tensor
  | array
  | arrayType
  | compilation
  deriving DecidableEq, Inhabited

/-- Built-in functions. -/
inductive Primitive where
  | bytes | getAttribute | set | slice | counter | orderedDict | defaultDict | encode
  | reconstruct | arrayScalar | annotate | toInt | toFloat | range | uninitialized | size
  | rebuildTensor | rebuildTensorV2 | rebuildQuantized | rebuildParameter | rebuildFromType
  | restoreTypeTag | buildList
  | identity | numToTensor | minimum | shape | raise | convPrepack | linearPrepack | setItem
  | contains | deriveIndex | rangeLength | is | isNot | not | and | or
  | add | sub | mul | div | floorDiv | remainder | negate
  | eq | ne | lt | le | gt | ge
  | append | dict | dim | keys | values | length | list | listWithDefault | quantizationScale
  | tensorSize | tensorSlice | warn
  | noOp | compilationInit | compilationRun
  deriving DecidableEq, Inhabited

inductive ClassKind where
  | native (constructor : Constructor)
  /-- Defined by a script. -/
  | user
  /-- A marker of a built-in type. -/
  | builtin
  /-- A generic type with the arguments applied so far. -/
  | generic (arguments : List Value)
  deriving Inhabited

structure Class where
  module : String
  name : String
  kind : ClassKind
  fields : Fields := {}
  deriving Inhabited

/-- The objects whose fields are the visible variables, innermost first. -/
abbrev Scope := List Nat

inductive FunctionKind where
  | native (primitive : Primitive)
  /-- Defined by a script, in this scope. -/
  | script (definition : Script.Function) (globals : Scope)
  deriving Inhabited

structure FunctionObject where
  module : String
  name : String
  kind : FunctionKind
  /-- Defined in a class body: a call through an instance passes the instance first. -/
  method : Bool
  deriving Inhabited

/-- What tracing notes on an instance. -/
structure Tag where
  /-- The name of the value in the graph. -/
  name? : Option String := none
  /-- How many inputs of traced calls refer to the instance. -/
  count : Nat := 0
  /-- Where a placeholder comes from. -/
  origin? : Option String := none
  deriving DecidableEq, Inhabited

/-- A record with a qualified type name. -/
structure Instance where
  module : String
  name : String
  class? : Option Nat := none
  fields : Fields := {}
  tag : Tag := {}
  deriving Inhabited

namespace Instance

/-- Whether an instance is a tensor itself, not a parameter that holds one. -/
def isPlainTensor (i : Instance) : Bool :=
  (i.module == "torch" || i.module == "torch.cuda") && i.name.endsWith "Tensor"

def isParameter (i : Instance) : Bool :=
  i.module == "torch.nn.parameter" && i.name == "Parameter"

end Instance

structure StorageObject where
  module : String
  name : String
  storage : Storage
  deriving Inhabited

/-- The name of the class of tensors over such a storage, in the same module. -/
def StorageObject.tensorName (s : StorageObject) : String := Text.replace "Storage" "Tensor" s.name

/-- The package whose globals a namespace holds. -/
structure PackageInfo where
  name : String
  file : String
  deriving DecidableEq, Inhabited

structure Namespace where
  fields : Fields := {}
  package? : Option PackageInfo := none
  deriving Inhabited

inductive Object where
  /-- Lists and tuples alike. -/
  | list (items : List Value)
  | dict (entries : Dict)
  | bytes (data : Bytes)
  | namespace (content : Namespace)
  | class (content : Class)
  | function (content : FunctionObject)
  | instance (content : Instance)
  | storage (content : StorageObject)
  deriving Inhabited

namespace Object

/-- The named fields of the objects that have them. -/
def fields? : Object → Option Fields
  | .namespace n => some n.fields
  | .class c => some c.fields
  | .instance i => some i.fields
  | _ => none

/-- Changes the named fields of the objects that have them. -/
def mapFields (change : Fields → Fields) : Object → Object
  | .namespace n => .namespace { n with fields := change n.fields }
  | .class c => .class { c with fields := change c.fields }
  | .instance i => .instance { i with fields := change i.fields }
  | o => o

/-- The module and name of the type that an object is known by. -/
def typeName? : Object → Option (String × String)
  | .instance i => some (i.module, i.name)
  | .storage s => some (s.module, s.name)
  | .class c => some (c.module, c.name)
  | .function f => some (f.module, f.name)
  | _ => none

end Object

end ModelGraph
