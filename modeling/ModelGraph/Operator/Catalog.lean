import ModelGraph.Json.Basic
import ModelGraph.Json.Reader
import ModelGraph.Operator.Schema
import ModelGraph.OrderedMap

/-!
# Catalogs of operators

A catalog finds schemas by name. An overload is registered under its own name and collected under its
operator's; an operator that has a schema of its own hides its overloads. `Catalog.Cached` answers
attribute lookups and remembers the answers until the next insertion.

A catalog document is an array of named schemas. An entry without a schema is passed over.
-/

namespace ModelGraph.Operator

/-- What is known under one name. -/
structure CatalogEntry where
  schema : Option Schema := none
  overloads : List Schema := []
  deriving Inhabited

structure Catalog where
  types : OrderedMap String CatalogEntry := .empty
  deriving Inhabited

namespace Catalog

def empty : Catalog := {}

/-- The name of the operator that a name with a suffix is an overload of. -/
def overloadBase? (name : String) : Option String :=
  let (base, suffix) := splitAtFirst (· == ':') name
  if suffix.isEmpty then none else some base

/-- Registers a schema under its name. -/
def insert (c : Catalog) (schema : Schema) : Catalog :=
  let types :=
    match overloadBase? schema.name with
    | some base =>
      c.types.update base {} fun entry => { entry with overloads := entry.overloads ++ [schema] }
    | none => c.types
  ⟨types.update schema.name {} fun entry => { entry with schema := some schema }⟩

def ofList (schemas : List Schema) : Catalog := schemas.foldl insert empty

/-- The number of names, those of operators known by their overloads included. -/
def size (c : Catalog) : Nat := c.types.size

/-- The candidates for a name: its own schema, else its overloads in order of registration. -/
def schemas (c : Catalog) (name : String) : List Schema :=
  match c.types.get? name with
  | none => []
  | some entry =>
    match entry.schema with
    | some schema => [schema]
    | none => entry.overloads

/-- The schema that attribute lookups consult. -/
def primary? (c : Catalog) (name : String) : Option Schema :=
  (c.types.get? name).bind fun entry => entry.schema.or entry.overloads.head?

/-- The last slot of the name among the inputs and attributes of a type. -/
def attribute? (c : Catalog) (type name : String) : Option Parameter :=
  (c.primary? type).bind fun schema => schema.parameters.reverse.find? (·.name = name)

/-- A catalog with the answers it has given. -/
structure Cached where
  catalog : Catalog
  answers : OrderedMap (String × String) (Option Parameter) := .empty

namespace Cached

def insert (c : Cached) (schema : Schema) : Cached := ⟨c.catalog.insert schema, .empty⟩

/-- Looks an attribute up. A miss remembers every slot of the type. -/
def lookup (c : Cached) (type name : String) : Option Parameter × Cached :=
  match c.answers.get? (type, name) with
  | some answer => (answer, c)
  | none =>
    let slots := ((c.catalog.primary? type).map (·.parameters)).getD []
    let answers :=
      slots.foldl (fun answers slot => answers.insert (type, slot.name) (some slot))
        (c.answers.insert (type, name) none)
    ((answers.get? (type, name)).join, { c with answers })

end Cached

end Catalog

/-- Why a catalog was not read. -/
inductive CatalogError where
  /-- The file was not read, for the given reason. -/
  | unreadable (reason : String)
  | malformed
  deriving DecidableEq, Repr

def CatalogError.message : CatalogError → String
  | .unreadable reason => "failed to read schema catalog: " ++ reason
  | .malformed => "failed to parse schema catalog: malformed document"

def Parameter.ofJson? (value : Json) : Option Parameter := do
  let fields ← Json.record? ["name", "type", "optional", "default", "visible"] value
  return {
    name := ← Json.required? fields "name" Json.string?
    type := ← Json.withDefault? fields "type" none (Json.optional? Json.string?)
    optional := ← Json.withDefault? fields "optional" false Json.bool?
    default := (fields.lookup "default").map (·.settled)
    visible := ← Json.withDefault? fields "visible" true Json.bool? }

def Schema.ofJson? (value : Json) : Option Schema := do
  let fields ← Json.record? ["name", "category", "inputs", "attributes", "outputs"] value
  let parameters := Json.list? Parameter.ofJson?
  return {
    name := ← Json.withDefault? fields "name" "" Json.string?
    category := ← Json.withDefault? fields "category" none (Json.optional? Json.string?)
    inputs := ← Json.withDefault? fields "inputs" [] parameters
    attributes := ← Json.withDefault? fields "attributes" [] parameters
    outputs := ← Json.withDefault? fields "outputs" [] parameters }

/-- One entry of a document; the entry's name is the schema's. -/
def Schema.ofEntry? (value : Json) : Option (Option Schema) := do
  let fields ← Json.record? ["name", "schema"] value
  let name ← Json.required? fields "name" Json.string?
  let schema ← Json.withDefault? fields "schema" none (Json.optional? Schema.ofJson?)
  return schema.map fun s => { s with name }

/-- Reads a catalog document. -/
def Catalog.ofDocument (text : String) : Except CatalogError Catalog :=
  match (Json.parse? text).bind (Json.list? Schema.ofEntry?) with
  | some entries => .ok (.ofList (entries.filterMap id))
  | none => .error .malformed

end ModelGraph.Operator
