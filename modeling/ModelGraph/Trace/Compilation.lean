import ModelGraph.Nnapi.Decode
import ModelGraph.Trace.Match

/-!
# Compiled models in traces

A compiled NNAPI model is handed over serialized. Its run is one call without attributes: it consumes
the serialized model, the inputs and the parameter buffers, and fills the given outputs.
-/

namespace ModelGraph

open Exec

namespace Compilation

def callName : String := "torch.classes._nnapi.Compilation"

def schema : Operator.Schema :=
  { name := callName
    inputs := [.typed "serialized_model" "Tensor", .typed "inputs" "Tensor[]",
      .typed "parameter_buffers" "Tensor[]"]
    outputs := [.typed "outputs" "Tensor[]"] }

/-- Keeps a serialized model and its buffers, if the model can be decoded. -/
def load (compilation model buffers : Value) : Exec Value := do
  let h ← heap
  match ((h.attribute? model "storage").bind h.storage?).bind (·.storage.bytes?) with
  | none => typeFault .modelWithoutData
  | some data =>
    match Nnapi.Model.decode data with
    | .error e => throw (.nnapi e)
    | .ok _ =>
      setAttributes compilation
        [("serialized_model_tensor", model), ("parameter_buffers", buffers)]
      return .none

/-- Names the tensors of a list. -/
def nameItems (v : Value) : Exec (List TracedValue) := do
  let h ← heap
  (((h.items? v).getD []).filter h.isTensor).mapM nameInput

/-- Records a run; without a trace under way it does nothing. -/
def run (compilation inputs outputs : Value) : Exec Value := do
  if (← get).tracer?.isNone then return .none
  match ← attribute? compilation "serialized_model_tensor" with
  | none => unsupported .compilationNotInitialized
  | some model =>
    let buffers := (← attribute? compilation "parameter_buffers").getD .none
    let model ← nameInput model
    let inputs ← nameItems inputs
    let buffers ← nameItems buffers
    let outputs ← nameItems outputs
    let traced : TracedCall :=
      { name := callName, schema, inputs := [[model], inputs, buffers], attributes := [],
        outputs := [outputs], preallocated := true }
    countUses traced.consumed
    recordCall traced
    return .none

end Compilation

end ModelGraph
