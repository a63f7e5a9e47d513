import ModelGraph.Archive.Error
import ModelGraph.Json.Basic
import ModelGraph.Json.Reader
import ModelGraph.Number.Numeral
import ModelGraph.Text.Basic
import ModelGraph.Text.Utf8

/-!
# Manifests

Early bundles describe their tree of modules by a JSON document. Tensors stand once in a table and
are referred to by number, and so are attributes, whose values are pickled apart. Integers may be
written as texts.
-/

namespace ModelGraph

/-- A name for an entry of the manifest's tables. -/
structure ManifestItem where
  name : String
  index : Nat
  /-- The declared type of an attribute. -/
  type : String := ""
  deriving DecidableEq, Inhabited

structure ManifestModule where
  name : String := ""
  submodules : List ManifestModule := []
  parameters : List ManifestItem := []
  /-- Tensors that are no parameters. -/
  arguments : List ManifestItem := []
  attributes : List ManifestItem := []
  /-- The entry with the module's code. -/
  code? : Option String := none
  deriving Inhabited

structure ManifestTensor where
  dims : List Nat
  declaredStrides : Option (List Nat) := none
  offset : Nat := 0
  dataType : String
  /-- The entry with the tensor's bytes. -/
  key : String
  deriving DecidableEq, Inhabited

structure Manifest where
  producerName : String := ""
  producerVersion : String := ""
  mainModule : ManifestModule
  tensors : List ManifestTensor := []
  deriving Inhabited

namespace ManifestTensor

/-- The first part of the names of the tensor's classes. -/
def typePrefix (t : ManifestTensor) : Except LoadError String :=
  match t.dataType with
  | "FLOAT" => .ok "Float"
  | "FLOAT16" => .ok "Half"
  | "DOUBLE" => .ok "Double"
  | "INT8" => .ok "Char"
  | "INT32" => .ok "Int"
  | "INT64" => .ok "Long"
  | other => .error (.format (.tensorType other))

/-- Strides of a tensor whose elements lie one after another, the last dimension first. -/
def contiguous : List Nat → List Nat
  | [] => []
  | [_] => [1]
  | _ :: d :: dims =>
    let rest := contiguous (d :: dims)
    rest.headD 1 * d :: rest

/-- The declared strides, or else those of contiguous elements. -/
def strides (t : ManifestTensor) : List Nat := t.declaredStrides.getD (contiguous t.dims)

end ManifestTensor

mutual

/-- How many levels a tree of modules has. -/
def ManifestModule.height : ManifestModule → Nat
  | ⟨_, submodules, _, _, _, _⟩ => 1 + ManifestModule.heights submodules

def ManifestModule.heights : List ManifestModule → Nat
  | [] => 0
  | m :: rest => max m.height (ManifestModule.heights rest)

end

namespace Manifest

open Json

/-- Reads an index, which may be written as a text. -/
def index? : Json → Option Nat
  | .int i => if 0 ≤ i then checkedSize i.toNat else none
  | .string s => sizeNumeral? (Text.trim s.toList)
  | _ => none

def tensorItem? (value : Json) : Option ManifestItem := do
  let fields ← record? ["name", "tensorId"] value
  return { name := ← required? fields "name" string?, index := ← required? fields "tensorId" index? }

def attributeItem? (value : Json) : Option ManifestItem := do
  let fields ← record? ["name", "id", "type"] value
  return {
    name := ← required? fields "name" string?
    index := ← required? fields "id" index?
    type := ← withDefault? fields "type" "" string? }

/-- Reads the only field of a record. -/
def key? (value : Json) : Option String := do
  required? (← record? ["key"] value) "key" string?

def tensor? (value : Json) : Option ManifestTensor := do
  let fields ← record? ["dims", "strides", "offset", "dataType", "data"] value
  return {
    dims := ← required? fields "dims" (list? index?)
    declaredStrides := ← withDefault? fields "strides" none (optional? (list? index?))
    offset := ← withDefault? fields "offset" 0 index?
    dataType := ← required? fields "dataType" string?
    key := ← required? fields "data" key? }

/-- Reads a module with submodules down to a number of levels. -/
def module? : (levels : Nat) → Json → Option ManifestModule
  | 0, _ => none
  | levels + 1, value => do
    let fields ← record?
      ["name", "submodules", "parameters", "arguments", "attributes", "torchscriptArena"] value
    return {
      name := ← withDefault? fields "name" "" string?
      submodules := ← withDefault? fields "submodules" [] (list? (module? levels))
      parameters := ← withDefault? fields "parameters" [] (list? tensorItem?)
      arguments := ← withDefault? fields "arguments" [] (list? tensorItem?)
      attributes := ← withDefault? fields "attributes" [] (list? attributeItem?)
      code? := ← withDefault? fields "torchscriptArena" none (optional? key?) }

def ofJson? (value : Json) : Option Manifest := do
  let fields ← record? ["producerName", "producerVersion", "mainModule", "tensors"] value
  return {
    producerName := ← withDefault? fields "producerName" "" string?
    producerVersion := ← withDefault? fields "producerVersion" "" string?
    mainModule := ← required? fields "mainModule" (module? nestingLimit)
    tensors := ← withDefault? fields "tensors" [] (list? tensor?) }

/-- Reads a manifest from the text of a document. -/
def ofText (text : String) : Except LoadError Manifest :=
  match (Json.parse? text).bind ofJson? with
  | some m => .ok m
  | none => .error .manifest

/-- Reads a manifest from the bytes of a document. -/
def ofBytes (data : Bytes) : Except LoadError Manifest :=
  match Text.utf8? data with
  | some text => ofText text
  | none => .error .manifest

/-- Name and version of the producer, if it is named. -/
def producer? (m : Manifest) : Option String :=
  if m.producerName.isEmpty then none
  else some (m.producerName ++ " v" ++ m.producerVersion)

end Manifest

end ModelGraph
