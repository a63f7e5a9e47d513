import ModelGraph.Json.Basic

/-!
# Operator schemas

A schema lists an operator's inputs, attributes and outputs in order. An overload is named after its
operator with a colon and a suffix.
-/

namespace ModelGraph

/-- Cuts a text before the first character with the property; the second part begins with it. -/
def splitAtFirst (p : Char → Bool) (s : String) : String × String :=
  let cs := s.toList
  (String.ofList (cs.takeWhile fun c => !p c), String.ofList (cs.dropWhile fun c => !p c))

namespace Operator

/-- The types of parameters that the matching of calls tells apart. -/
inductive ParameterKind where
  | tensor
  | tensorList
  | scalar
  | boolean
  | int64
  | int64List
  /-- A single integer or a list of integers. -/
  | int64OrList
  | float32
  | float64
  | layout
  | scalarType
  | memoryFormat
  | device
  /-- No type is declared. -/
  | any
  | other (name : String)
  deriving DecidableEq, Repr

namespace ParameterKind

def ofName : String → ParameterKind
  | "Tensor" => .tensor
  | "Tensor[]" => .tensorList
  | "Scalar" => .scalar
  | "boolean" => .boolean
  | "int64" => .int64
  | "int64[]" => .int64List
  | "int64[1]" => .int64OrList
  | "float32" => .float32
  | "float64" => .float64
  | "Layout" => .layout
  | "ScalarType" => .scalarType
  | "MemoryFormat" => .memoryFormat
  | "Device" => .device
  | name => .other name

def name : ParameterKind → String
  | .tensor => "Tensor"
  | .tensorList => "Tensor[]"
  | .scalar => "Scalar"
  | .boolean => "boolean"
  | .int64 => "int64"
  | .int64List => "int64[]"
  | .int64OrList => "int64[1]"
  | .float32 => "float32"
  | .float64 => "float64"
  | .layout => "Layout"
  | .scalarType => "ScalarType"
  | .memoryFormat => "MemoryFormat"
  | .device => "Device"
  | .any => ""
  | .other name => name

def isTensor : ParameterKind → Bool
  | .tensor | .tensorList => true
  | _ => false

def isOther : ParameterKind → Bool
  | .other _ => true
  | _ => false

@[simp] theorem name_ofName (s : String) : (ofName s).name = s := by
  unfold ofName
  split <;> rfl

end ParameterKind

/-- One slot of a schema. A declared default of null differs from declaring none. -/
structure Parameter where
  name : String
  type : Option String := none
  optional : Bool := false
  default : Option Json := none
  visible : Bool := true
  deriving Inhabited

namespace Parameter

/-- A required slot without type. -/
def named (name : String) : Parameter := ⟨name, none, false, none, true⟩

def typed (name type : String) : Parameter := ⟨name, some type, false, none, true⟩

def withDefault (p : Parameter) (default : Json) : Parameter := { p with default := some default }

def asOptional (p : Parameter) : Parameter := { p with optional := true }

def hidden (p : Parameter) : Parameter := { p with visible := false }

def kind (p : Parameter) : ParameterKind :=
  match p.type with
  | some type => .ofName type
  | none => .any

end Parameter

structure Schema where
  /-- The full name, with the suffix of an overload. -/
  name : String
  category : Option String := none
  inputs : List Parameter := []
  attributes : List Parameter := []
  outputs : List Parameter := []
  deriving Inhabited

/-- A name without the suffix of an overload. -/
def baseName (name : String) : String := (splitAtFirst (· == ':') name).1

namespace Schema

def baseName (s : Schema) : String := Operator.baseName s.name

/-- The slots that the arguments of a call fill, in order. -/
def parameters (s : Schema) : List Parameter := s.inputs ++ s.attributes

end Schema

end Operator

end ModelGraph
