import ModelGraph.Machine.Basic
import ModelGraph.Number.Numeral

/-!
# Matching calls with schemas

The parameters of a schema take the arguments of a call in order; an optional parameter that does
not fit the next argument is left out. Tensors that a call consumes or produces get names in the
graph: an object keeps its name, a new one is a number not used before.
-/

namespace ModelGraph

open Operator (ParameterKind)
open Exec

/-- An argument that waits for a parameter: its keyword, if it has one, and its value. -/
abbrev PendingArgument := Option String × Value

def Arguments.pending (a : Arguments) : List PendingArgument :=
  a.positional.map (none, ·) ++ a.named.map fun n => (some n.1, n.2)

namespace Heap

def isTensorOrNone (h : Heap) (v : Value) : Bool := h.isTensor v || v.isNone

def isIntList (h : Heap) (v : Value) : Bool :=
  (h.items? v).any (·.all fun i => i.isIntLike || i.isNone)

/-- Whether a parameter of some kind accepts a value. -/
def fits (h : Heap) (v : Value) : ParameterKind → Bool
  | .tensor => h.isTensorOrNone v
  | .tensorList => (h.items? v).any fun items => !items.isEmpty && items.all h.isTensorOrNone
  | .scalar => v.isPrimitive || h.isTensor v
  | .boolean => v.bool?.isSome
  | .int64 => v.isIntLike
  | .int64List => h.isIntList v
  | .int64OrList => v.isIntLike || h.isIntList v
  | .float32 | .float64 => v.isPrimitive
  | .layout | .scalarType | .memoryFormat => v.int?.isSome || v.isNone
  | .device => v.isNone || v.ref?.isSome
  | .any | .other _ => true

end Heap

/-- Spreads a packed record at the front: quantized parameters into weight and bias, and the
numbered fields of an operator context to the end. -/
def unpackFront (h : Heap) (arguments : List PendingArgument) :
    Except RunError (List PendingArgument) :=
  match arguments with
  | [] => .ok []
  | (_, front) :: rest =>
    match h.instance? front with
    | none => .ok arguments
    | some i =>
      let part (name : String) : PendingArgument := (none, (i.fields.get? name).getD .none)
      if i.module = "__torch__.torch.classes.quantized" then
        if i.name = "Conv2dPackedParamsBase" ∨ i.name = "LinearPackedParamsBase" then
          .ok (part "weight" :: part "bias" :: rest)
        else .error (.unsupported (.packedType i.name))
      else if i.module = "__torch__.torch.classes.xnnpack" then
        if i.name = "LinearOpContext" ∨ i.name = "Conv2dOpContext" then
          let numbered := i.fields.entries.filter fun e => (int64Numeral? 10 e.1.toList).isSome
          .ok (rest ++ numbered.map fun e => (none, e.2))
        else .error (.unsupported (.packedType i.name))
      else .ok arguments

namespace Exec

/-- A name that no value of the trace has yet. -/
def freshName : Exec String :=
  modifyGet fun m =>
    match m.tracer? with
    | some t => (toString (t.minted + 1), { m with tracer? := some { t with minted := t.minted + 1 } })
    | none => ("0", m)

/-- Names a value that a call consumes; a value that is no object becomes a nameless record. -/
def nameInput (v : Value) : Exec TracedValue := do
  let object ← match v, (← heap).object? v with
    | .ref id, some _ => pure id
    | _, _ => do
      let made ← record "" ""
      pure (made.ref?.getD 0)
  match ((← heap).tag? object).bind (·.name?) with
  | some name => return ⟨name, object⟩
  | none =>
    let name ← freshName
    modifyHeap (·.modifyTag object fun t => { t with name? := some name })
    return ⟨name, object⟩

/-- A tensor that stands for one not computed. -/
def placeholderTensor (name? : Option String) (origin : String) : Exec Value :=
  alloc (.instance { module := "torch", name := "Tensor", tag := { name?, origin? := some origin } })

/-- A placeholder for an output of a call. -/
def nameOutput (call : String) (size? : Option Value) : Exec TracedValue := do
  let name ← freshName
  let made ← placeholderTensor (some name) ("invoke-output-" ++ call)
  if let some size := size? then setAttribute made "size" size
  return ⟨name, made.ref?.getD 0⟩

/-- Counts a use of each object. -/
def countUses (values : List TracedValue) : Exec Unit :=
  modifyHeap fun h =>
    values.foldl (fun h v => h.modifyTag v.object fun t => { t with count := t.count + 1 }) h

def recordCall (call : TracedCall) : Exec Unit :=
  modify fun m =>
    { m with tracer? := m.tracer?.map fun t => { t with calls := t.calls ++ [call] } }

end Exec

/-- What the parameters of a schema have taken so far. -/
structure Binding where
  inputs : List (List TracedValue) := []
  attributes : List (String × Value) := []

namespace Binding

def addInput (b : Binding) (values : List TracedValue) : Binding :=
  { b with inputs := b.inputs ++ [values] }

def addAttribute (b : Binding) (name : String) (value : Value) : Binding :=
  { b with attributes := b.attributes ++ [(name, value)] }

/-- Binds arguments that all have keywords to the parameters of these names. An optional parameter
ignores a value that does not fit. -/
def addNamed (h : Heap) (parameters : List Operator.Parameter) :
    List PendingArgument → Binding → Option Binding
  | [], b => some b
  | (keyword, value) :: rest, b =>
    match parameters.find? (some ·.name == keyword) with
    | none => none
    | some p =>
      if h.fits value p.kind then addNamed h parameters rest (b.addAttribute p.name value)
      else if p.optional then addNamed h parameters rest b
      else none

end Binding

/-- What a parameter does with the next argument. -/
inductive Fit where
  /-- It consumes these tensors. -/
  | tensors (values : List Value)
  | attribute
  | misfit

/-- How a parameter fits the next argument. -/
def Operator.Parameter.fit (p : Operator.Parameter) (h : Heap) (next : PendingArgument) : Fit :=
  match p.kind with
  | .tensor => if h.isTensorOrNone next.2 then .tensors [next.2] else .misfit
  | .tensorList =>
    match h.items? next.2 with
    | some items => if items.all h.isTensorOrNone then .tensors items else .misfit
    | none => .misfit
  | kind =>
    if (h.fits next.2 kind || next.2.isNone) && next.1.all (· == p.name) then .attribute
    else .misfit

/-- Binds arguments to parameters in order; nothing if they do not fit. -/
def bindArguments : List Operator.Parameter → List PendingArgument → Binding →
    Exec (Option Binding)
  | _, [], b => return some b
  | [], _ :: _, _ => return none
  | p :: parameters, arguments, b => do
    let h ← heap
    match ← ofExcept (unpackFront h arguments) with
    | [] => return some b
    | next :: rest =>
      if (next :: rest).all (·.1.isSome) && (p :: parameters).all (!·.kind.isTensor) then
        return b.addNamed h (p :: parameters) (next :: rest)
      else
        match p.fit h next with
        | .tensors values => do
          let named ← values.mapM nameInput
          bindArguments parameters rest (b.addInput named)
        | .attribute => bindArguments parameters rest (b.addAttribute p.name next.2)
        | .misfit =>
          if p.optional then bindArguments parameters (next :: rest) b else return none

/-- Operators whose output has a known number of dimensions. -/
def outputRank? (call : String) : Option Nat :=
  if call ∈ ["torch.cat", "torch.conv2d", "torch.dropout", "torch.flatten", "torch.max_pool2d",
      "torch.adaptive_avg_pool2d", "torch.avg_pool2d", "torch.quantize_per_tensor", "torch.relu_",
      "torch.hardtanh_", "torch.slice", "ops.quantized.cat", "ops.quantized.cat_relu",
      "ops.quantized.linear", "ops.quantized.conv2d", "ops.quantized.conv2d_relu",
      "ops.quantized.add_relu"] then some 4
  else if call = "torch.conv3d" then some 5
  else if call = "torch.embedding" then some 3
  else none

/-- The size of a call's output, as far as it is known. -/
def outputSize? (call : String) (b : Binding) : Exec (Option Value) := do
  if call ∈ ["torch.ones", "torch.zeros", "torch.zeros_like"] then
    return some ((b.attributes.head?.map (·.2)).getD .none)
  match outputRank? call with
  | some rank => return some (← list (List.replicate rank .unknown))
  | none => return none

/-- How many tensors a list output has. -/
def outputCount (call : String) (b : Binding) : Nat :=
  if call = "torch.chunk" then ((b.attributes.lookup "chunks").bind Value.size?).getD 1 else 1

/-- Placeholders for the outputs of a schema, each with the value that the call gives for it. Only
where `wantsInt` is set may the sole output be an integer; nothing if an output is not a tensor. -/
def makeOutputs (call : String) (b : Binding) (wantsInt : Bool) :
    List Operator.Parameter → Exec (Option (List (Value × List TracedValue)))
  | [] => return some []
  | p :: rest => do
    let made? ← match p.kind with
      | .tensor => do
        let made ← nameOutput call (← outputSize? call b)
        pure (some (Value.ref made.object, [made]))
      | .tensorList => do
        let made ← (List.replicate (outputCount call b) ()).mapM fun _ => nameOutput call none
        pure (some (← list (made.map fun v => .ref v.object), made))
      | .int64 =>
        if wantsInt then do
          let made ← nameOutput call none
          pure (some (Value.ref made.object, [made]))
        else pure none
      | _ => pure none
    match made? with
    | none => return none
    | some made => return (← makeOutputs call b wantsInt rest).map (made :: ·)

/-- Several results make a list; a lone one stands for itself. -/
def bundle : List Value → Exec Value
  | [] => return .none
  | [v] => return v
  | vs => list vs

/-- Matches a call with one schema and records it; the value it gives. -/
def matchSchema (call : String) (schema : Operator.Schema) (arguments : Arguments)
    (wantsInt : Bool) : Exec (Option Value) := do
  match ← bindArguments schema.parameters arguments.pending {} with
  | none => return none
  | some b =>
    match ← makeOutputs call b (wantsInt && schema.outputs.length == 1) schema.outputs with
    | none => return none
    | some made =>
      let traced : TracedCall :=
        { name := call, schema, inputs := b.inputs, attributes := b.attributes,
          outputs := made.map (·.2) }
      countUses traced.consumed
      recordCall traced
      return some (← bundle (made.map (·.1)))

/-- Matches a call with the first schema that fits. -/
def matchSchemas (call : String) (arguments : Arguments) (wantsInt : Bool) :
    List Operator.Schema → Exec (Option Value)
  | [] => return none
  | schema :: rest => do
    match ← matchSchema call schema arguments wantsInt with
    | some v => return some v
    | none => matchSchemas call arguments wantsInt rest

/-- The schemas that the catalog of the running trace has under a name. -/
def tracedSchemas (name : String) : Exec (List Operator.Schema) := do
  match (← get).tracer? with
  | some t => return t.catalog.schemas name
  | none => return []

end ModelGraph
