import ModelGraph.Archive.Checkpoint
import ModelGraph.Archive.Error
import ModelGraph.Graph.Document
import ModelGraph.Graph.OfModules
import ModelGraph.Graph.OfScript
import ModelGraph.Machine.Standard
import ModelGraph.Model.Options
import ModelGraph.Operator.Catalog

/-!
# Models

A model is what a checkpoint amounts to: its format and producer, its graphs, and the messages about
problems met on the way. Where none is opened, `ModelError.causes` names the causes, the nearest one
first.
-/

namespace ModelGraph

inductive ModelError where
  /-- The source was not opened. -/
  | format (error : LoadError)
  /-- The opened source was not loaded or traced. -/
  | load (error : LoadError)
  | catalog (error : Operator.CatalogError)
  /-- A module of this type should hold others and has none. -/
  | noSubmodules (type : String)
  | options (fault : OptionsFault)
  deriving DecidableEq

namespace ModelError

def message : ModelError → String
  | .format error => "file format is not PyTorch (" ++ error.message ++ ")"
  | .load error => error.message
  | .catalog error => "failed to load operator metadata: " ++ error.message
  | .noSubmodules type => "invalid module '" ++ type ++ "': module does not contain modules"
  | .options fault => "configuration error: " ++ fault.message

def causes : ModelError → List String
  | .load (.run (.nnapi error)) => [error.message]
  | .catalog (.unreadable reason) =>
    [(Operator.CatalogError.unreadable reason).message, reason]
  | .catalog .malformed => [Operator.CatalogError.malformed.message]
  | _ => []

end ModelError

structure Model where
  format : String
  /-- What wrote the checkpoint; empty if that is not recorded. -/
  producer : String := ""
  graphs : List Graph
  diagnostics : List String := []
  deriving Inhabited

namespace Model

/-- The values that a machine has bound as constants. -/
def constants (m : Machine) : List Value :=
  match (m.heap.resolve? rootScope ["CONSTANTS"]).bind m.heap.entries? with
  | some entries => entries.map (·.2)
  | none => []

/-- The graphs of loaded content. -/
def graphsOf (m : Machine) (s : Snapshot) (trace? : Option Trace) :
    Content → Except ModelError (List Graph)
  | .script root => return [.ofScript s (constants m) root trace?]
  | .weights sets => return sets.map (.ofWeights s)
  | .module root =>
    match Graph.ofModules s root with
    | .ok graph => return [graph]
    | .error fault => throw (.noSubmodules fault.type)

/-- Loads an opened checkpoint and makes its graphs. -/
def read (catalog : Operator.Catalog) (options : LoadOptions) :
    ExceptT ModelError (StateM Checkpoint) Model := do
  let content ← Checkpoint.content.adapt .load
  let littleEndian ← Checkpoint.littleEndian.adapt .load
  let trace? ← match content, options.trace with
    | .script _, true => (Checkpoint.trace catalog).adapt .load
    | _, _ => pure none
  let c ← get
  let graphs ← graphsOf c.machine { heap := c.machine.heap, catalog, littleEndian } trace? content
  return {
    format := c.format
    producer := c.producer?.getD ""
    graphs
    diagnostics := c.machine.diagnostics.messages }

/-- The machine that a model is loaded into. -/
def machine (options : LoadOptions) : Machine :=
  Machine.standard.withDiagnostics options.diagnostics

/-- Opens a source as a model. -/
def ofSource (source : Source) (catalog : Operator.Catalog) (options : LoadOptions) :
    Except ModelError Model :=
  match Checkpoint.openIn source (machine options) with
  | .ok checkpoint => ((read catalog options).run checkpoint).1
  | .error error => .error (.format error)

def json (m : Model) : Json :=
  .object [("format", .string m.format), ("producer", .string m.producer),
    ("graphs", .array (m.graphs.map Graph.json)),
    ("diagnostics", .array (m.diagnostics.map .string))]

end Model

end ModelGraph
