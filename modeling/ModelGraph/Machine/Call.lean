import ModelGraph.Machine.Builtin

/-!
# Calls

Calling a class makes an instance; calling a function runs a primitive or the statements of a
definition. Missing arguments of primitives are absent values. The parameters of a definition take the
positional arguments first, then those of their names, then their defaults; a parameter left without
any is absent.
-/

namespace ModelGraph

open Exec

/-- Runs a built-in function. -/
def Host.primitive (host : Host) (p : Primitive) (arguments : List Value) : Exec Value := do
  let arg := argument arguments
  match p with
  | .bytes => bytes (Builtin.toBytes (← heap) (arg 0))
  | .getAttribute =>
    match arg 1 with
    | .str name => return (← attribute? (arg 0) name).getD (arg 2)
    | _ => typeFault .attributeName
  | .set | .list | .size => list (← items (arg 0))
  | .listWithDefault | .restoreTypeTag | .buildList | .identity => return arg 0
  | .slice =>
    let made ← record "builtins" "slice"
    setAttributes made [("start", arg 0), ("stop", arg 1), ("step", arg 2)]
    return made
  | .counter | .defaultDict => dict
  | .orderedDict | .dict => Builtin.pairs (arg 0)
  | .encode => bytes (Text.lowBytes ((arg 0).str?.getD ""))
  | .reconstruct => Builtin.reconstruct host (arg 0)
  | .arrayScalar => Builtin.arrayScalar (arg 0) (arg 1)
  | .annotate => return arguments.getLast?.getD .none
  | .toInt => return (arg 0).toWhole
  | .toFloat => return (arg 0).toFloat
  | .range => Builtin.range arguments
  | .uninitialized | .warn | .noOp => return .none
  | .rebuildTensor => Builtin.rebuildTensor arg []
  | .rebuildTensorV2 =>
    Builtin.rebuildTensor arg [("requires_grad", arg 4), ("backward_hooks", arg 5)]
  | .rebuildQuantized =>
    Builtin.rebuildTensor arg
      [("quantizer_params", arg 4), ("requires_grad", arg 5), ("backward_hooks", arg 6)]
  | .rebuildParameter =>
    let made ← host.invoke "torch.nn.parameter.Parameter" [arg 0, arg 1]
    setAttribute made "backward_hooks" (arg 2)
    return made
  | .rebuildFromType => host.call (arg 0) none { positional := ← items (arg 2) }
  | .numToTensor =>
    let made ← record "torch" "Tensor"
    setAttribute made "value" (arg 0)
    return made
  | .minimum => Builtin.minimum arguments
  | .shape => return (← attribute? (arg 0) "size").getD .unknown
  | .raise =>
    match arg 0 with
    | .str s => throw (.raised s)
    | v => throw (.raised (← describe v))
  | .convPrepack =>
    Builtin.prepack "Conv2dPackedParamsBase"
      ["weight", "bias", "stride", "padding", "dilation", "groups"] arguments
  | .linearPrepack => Builtin.prepack "LinearPackedParamsBase" ["weight", "bias"] arguments
  | .setItem =>
    modifyHeap (·.setItem (arg 0) (arg 1) (arg 2))
    return .none
  | .contains => Builtin.contains (arg 0) (arg 1)
  | .deriveIndex => return Builtin.deriveIndex (arg 0) (arg 1) (arg 2)
  | .rangeLength => Builtin.rangeLength (arg 0) (arg 1) (arg 2)
  | .is => return .bool (← Builtin.identical (arg 0) (arg 1))
  | .isNot => return .bool !(← Builtin.identical (arg 0) (arg 1))
  | .not =>
    match arg 0 with
    | .bool b => return .bool !b
    | v => unsupported (.truth (← describe v))
  | .and => return Builtin.conjunction (arg 0) (arg 1)
  | .or => return Builtin.disjunction (arg 0) (arg 1)
  | .add => Builtin.sum (arg 0) (arg 1)
  | .sub => Builtin.arithmetic .sub (arg 0) (arg 1)
  | .mul => Builtin.arithmetic .mul (arg 0) (arg 1)
  | .div => Builtin.arithmetic .div (arg 0) (arg 1)
  | .floorDiv => Builtin.arithmetic .floorDiv (arg 0) (arg 1)
  | .remainder => Builtin.arithmetic .remainder (arg 0) (arg 1)
  | .negate => Builtin.negative (arg 0)
  | .eq => return .bool ((← heap).equal (arg 0) (arg 1))
  | .ne => return .bool !((← heap).equal (arg 0) (arg 1))
  | .lt => Builtin.comparison (arg 0) (arg 1) (· == .lt)
  | .le => Builtin.comparison (arg 0) (arg 1) (· != .gt)
  | .gt => Builtin.comparison (arg 0) (arg 1) (· == .gt)
  | .ge => Builtin.comparison (arg 0) (arg 1) (· != .lt)
  | .append => Builtin.append (arg 0) (arg 1)
  | .dim => return Builtin.dim (← heap) (arg 0)
  | .keys => list ((((← heap).dict? (arg 0)).getD {}).keys.map Key.toValue)
  | .values => list (((← heap).dict? (arg 0)).getD {}).values
  | .length => return Builtin.length (← heap) (arg 0)
  | .quantizationScale => return .float (-1)
  | .tensorSize => return Builtin.tensorSize (← heap) (arg 0) (arg 1)
  | .tensorSlice => Builtin.slice (arg 0) (arg 1) (arg 2) (arg 3)
  | .compilationInit => Compilation.load (arg 0) (arg 1) (arg 2)
  | .compilationRun => Compilation.run (arg 0) (arg 1) (arg 2)

/-- Binds the parameters of a definition in the scope of its call. A default is evaluated in the
scope of the definition. -/
def Host.bindParameters (host : Host) (globals scope : Scope) (named : List (String × Value)) :
    List Script.Parameter → List Value → Exec Unit
  | [], _ => return
  | p :: parameters, v :: positional => do
    assign scope p.name v
    host.bindParameters globals scope named parameters positional
  | p :: parameters, [] => do
    let v ← match named.lookup p.name, p.default with
      | some v, _ => pure v
      | none, some default => host.evaluate default globals
      | none, none => pure .none
    assign scope p.name v
    host.bindParameters globals scope named parameters []

/-- Runs a definition in a new scope inside the scope where it was made. -/
def Host.apply (host : Host) (definition : Script.Function) (globals : Scope)
    (arguments : Arguments) : Exec Value := do
  let locals ← alloc (.namespace {})
  let scope := (locals.ref?.getD 0) :: globals
  host.bindParameters globals scope arguments.named definition.parameters arguments.positional
  match ← host.block definition.body scope with
  | .return v => return v
  | .next => return .none

/-- The arguments of a method that is called through an instance begin with the instance. -/
def withReceiver (h : Heap) (method : Bool) (receiver : Option Value) (a : Arguments) :
    Arguments :=
  match receiver with
  | some r => if method && (h.instance? r).isSome then { a with positional := r :: a.positional } else a
  | none => a

/-- Calls a class or a function. -/
def Host.dispatch (host : Host) (callee : Value) (receiver : Option Value)
    (arguments : Arguments) : Exec Value := do
  let h ← heap
  match callee, h.object? callee with
  | .ref id, some (.class _) => construct id arguments.values
  | _, some (.function f) =>
    let arguments := withReceiver h f.method receiver arguments
    match f.kind with
    | .native p => host.primitive p arguments.values
    | .script definition globals => host.apply definition globals arguments
  | _, _ => typeFault (.notCallable (h.describe callee))

end ModelGraph
