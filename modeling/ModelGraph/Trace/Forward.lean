import ModelGraph.Machine.Run

/-!
# Tracing a module

The `forward` method of a module is run with placeholders for its parameters, made after their
declared types. The calls it makes of operators with a schema become the trace.
-/

namespace ModelGraph

open Exec
open Script (Expr)

namespace Trace

mutual

/-- A placeholder argument for a parameter of a declared type. -/
def placeholder (name : String) : Expr → Exec Value
  | .subscript target index => ofType name (target.dottedName?.getD "") (placeholders name index)
  | e => ofType name (e.dottedName?.getD "") (return [])

def placeholders (name : String) : List Expr → Exec (List Value)
  | [] => return []
  | e :: rest => do
    let v ← placeholder name e
    return v :: (← placeholders name rest)

/-- A placeholder for the named type, with those of its arguments. -/
def ofType (name type : String) (arguments : Exec (List Value)) : Exec Value :=
  match (Script.dotParts type).getLastD "" with
  | "Tensor" => placeholderTensor (some name) "trace-input-tensor"
  | "Tuple" | "List" => do list (← arguments)
  | "Dict" => dict
  | "int" => return .int 0
  | "float" => return .float 0
  | "Optional" => return .none
  | _ => unsupported (.parameterType type name)

end

/-- Placeholders for the parameters of `forward`, with the names of those that are tensors. -/
def parameters : List Script.Parameter → Exec (List (String × Value))
  | [] => return []
  | p :: rest => do
    if p.name = "self" then parameters rest
    else
      match p.declaredType with
      | none => unsupported (.undeclaredParameter p.name)
      | some type =>
        let v ← placeholder p.name type
        return (p.name, v) :: (← parameters rest)

/-- Runs `forward`; the names of its tensor parameters and what it returns. -/
def runForward (module forward : Value) (definition : Script.Function) :
    Exec (List String × Value) := do
  let made ← parameters definition.parameters
  let h ← heap
  let inputs := (made.filter fun p => h.isTensor p.2).map (·.1)
  let result ← Host.standard.call forward (some module) { positional := made.map (·.2) }
  return (inputs, result)

/-- Runs an action while recording its calls, and ends the recording however it ends. -/
def recording {α : Type} (catalog : Operator.Catalog) (action : Exec α) :
    Exec (α × List TracedCall) := do
  modify fun m => { m with tracer? := some { catalog } }
  let result ← try (.ok <$> action) catch e => pure (.error e)
  let calls := ((← get).tracer?.map (·.calls)).getD []
  modify fun m => { m with tracer? := none }
  return (← ofExcept result, calls)

/-- The names of the tensors in a result. -/
def resultNames (h : Heap) (result : Value) : List String :=
  (((h.items? result).getD [result]).filter h.isTensor).filterMap fun v =>
    (v.ref?.bind h.tag?).bind (·.name?)

end Trace

/-- Traces the `forward` method of a module. -/
def Exec.traceForward (module : Value) (catalog : Operator.Catalog) : Exec Trace := do
  let h ← heap
  match h.attribute? module "forward" with
  | none => unsupported .forwardMissing
  | some forward =>
    match h.function? forward with
    | some { kind := .script definition _, .. } =>
      let ((inputs, result), calls) ←
        Trace.recording catalog (Trace.runForward module forward definition)
      return { inputs, outputs := Trace.resultNames (← heap) result, calls }
    | _ => unsupported .forwardNotScript

end ModelGraph
