import ModelGraph.Object.Value
import ModelGraph.Operator.Catalog

/-!
# Traces

What tracing a module's `forward` records: the operator calls that fit a schema of the catalog, in
the order of evaluation. A traced value has a name in the graph and an object on the heap.
-/

namespace ModelGraph

structure TracedValue where
  name : String
  object : Nat
  deriving DecidableEq, Inhabited

/-- An operator call that fits a schema, or the run of a compiled model. -/
structure TracedCall where
  /-- The name the call was made under. -/
  name : String
  schema : Operator.Schema
  /-- The values of each tensor parameter that the call filled. -/
  inputs : List (List TracedValue)
  /-- The other arguments, under their parameters' names. -/
  attributes : List (String × Value)
  /-- The values of each output of the schema. -/
  outputs : List (List TracedValue)
  /-- Whether the outputs were handed to the call, not made by it. -/
  preallocated : Bool := false
  deriving Inhabited

/-- The values that a call consumes, in order. -/
def TracedCall.consumed (c : TracedCall) : List TracedValue := c.inputs.flatten

/-- The values that a call makes, in order. -/
def TracedCall.produced (c : TracedCall) : List TracedValue :=
  if c.preallocated then [] else c.outputs.flatten

structure Trace where
  /-- Names of the tensors that `forward` takes. -/
  inputs : List String
  /-- Names of the tensors that `forward` returned. -/
  outputs : List String
  calls : List TracedCall
  deriving Inhabited

/-- A trace that is being recorded. -/
structure Tracer where
  catalog : Operator.Catalog
  calls : List TracedCall := []
  /-- How many names have been given to values. -/
  minted : Nat := 0
  deriving Inhabited

end ModelGraph
