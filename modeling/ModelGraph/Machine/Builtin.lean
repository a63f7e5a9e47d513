import ModelGraph.Machine.Construct
import ModelGraph.Trace.Compilation

/-!
# Built-in operations

The operations behind the primitives. The operations on tensors compute no elements; what cannot be
known is the unknown number.
-/

namespace ModelGraph

open Exec

namespace Builtin

/-- The numbers from `i` on before `stop`, `step` apart, after those that are `done`, which stand last
first. -/
def rangeFrom (stop step i : Int) (done : List Int) : List Int :=
  if 0 < step ∧ i < stop ∨ step < 0 ∧ stop < i then rangeFrom stop step (i + step) (i :: done)
  else done.reverse
termination_by (if 0 < step then stop - i else i - stop).toNat
decreasing_by by_cases h : 0 < step <;> simp only [h, if_true, if_false] <;> omega

def range (arguments : List Value) : Exec Value := do
  let numbers (start stop step : Int64) : Exec Value :=
    list ((rangeFrom stop.toInt step.toInt start.toInt []).map fun i => .int (Int64.ofInt i))
  match arguments.mapM Value.whole? with
  | some [stop] => numbers 0 stop 1
  | some [start, stop] => numbers start stop 1
  | some [start, stop, step] =>
    if step = 0 then unsupported .rangeArguments else numbers start stop step
  | _ => unsupported .rangeArguments

/-- How many numbers a range of words has. -/
def rangeSize (start stop step : Int64) : Int64 :=
  let span := if 0 < step then stop - start else start - stop
  let size := if step < 0 then -step else step
  max 0 ((span + size - 1) / size)

def rangeLength (start stop step : Value) : Exec Value := do
  match start.whole?, stop.whole?, step.whole? with
  | _, _, some 0 => unsupported .rangeStep
  | some lo, some hi, some step => return .int (rangeSize lo hi step)
  | _, _, _ => return .unknown

/-- The number at a place of a range. -/
def deriveIndex (index start step : Value) : Value :=
  match index.whole?, start.whole?, step.whole? with
  | some index, some start, some step => .int (start + index * step)
  | _, _, _ => .unknown

/-- Bytes of a text, of a list of numbers, or of other bytes. -/
def toBytes (h : Heap) (v : Value) : Bytes :=
  match v with
  | .str s => Text.lowBytes s
  | v =>
    match h.items? v with
    | some items => items.map fun i => ((i.int?.getD 0).toInt % 256).toNat.toUInt8
    | none => (h.bytes? v).getD []

/-- A dictionary of the pairs in a list; items that are no pairs are left out. -/
def pairs (v : Value) : Exec Value := do
  let h ← heap
  let entries := ((h.items? v).getD []).filterMap fun pair =>
    match h.items? pair with
    | some [key, value] => some (Key.ofValue key, value)
    | _ => none
  dict (.ofList entries)

/-- An instance of a class, or of the class with a given name, without its initializer run. -/
def reconstruct (host : Host) (c : Value) : Exec Value := do
  match c, (← heap).class? c with
  | .ref id, some _ => construct id []
  | .str name, _ => host.invoke name []
  | other, _ => typeFault (.reconstruction (← describe other))

def arrayScalar (type data : Value) : Exec Value := do
  let name := (((← attribute? type "name").bind Value.str?).getD "")
  let h ← heap
  let raw? := match data with
    | .str s => some (Text.lowBytes s)
    | v => h.bytes? v
  match raw? with
  | none => typeFault .scalarWithoutData
  | some raw => ofExcept (ScalarType.read name raw)

/-- A tensor over a storage, with further attributes. -/
def rebuildTensor (arg : Nat → Value) (further : List (String × Value)) : Exec Value := do
  match (← heap).storage? (arg 0) with
  | none => typeFault (.storageExpected (← describe (arg 0)))
  | some s =>
    let made ← record s.module s.tensorName
    setLayout made (arg 0) (arg 1) (arg 2) (arg 3)
    setAttributes made further
    return made

/-- The least of some values. -/
def least (h : Heap) : (best : Value) → List Value → Except RunError Value
  | best, [] => .ok best
  | best, v :: rest => do
    match ← h.compare best v with
    | .gt => least h v rest
    | _ => least h best rest

def minimum (arguments : List Value) : Exec Value := do
  let h ← heap
  let candidates := match arguments with
    | [v] => (h.items? v).getD arguments
    | _ => arguments
  match candidates with
  | [] => return .unknown
  | v :: rest => ofExcept (least h v rest)

/-- A record of packed parameters for quantized operators. -/
def prepack (type : String) (names : List String) (arguments : List Value) : Exec Value := do
  let made ← record "__torch__.torch.classes.quantized" type
  setAttributes made (names.mapIdx fun i name => (name, argument arguments i))
  return made

/-- Whether a text is part of another. -/
def isPart (part : List Char) : List Char → Bool
  | [] => part.isEmpty
  | c :: rest => part.isPrefixOf (c :: rest) || isPart part rest

def contains (container item : Value) : Exec Value := do
  let h ← heap
  match container, item with
  | .str text, .str part => return .bool (isPart part.toList text.toList)
  | _, _ =>
    match h.dict? container, h.items? container with
    | some d, _ => return .bool (d.contains (.ofValue item))
    | none, some items => return .bool (items.any fun v => h.equal v item)
    | none, none => unsupported .container

/-- Whether two values are the same object, or both absent. -/
def identical (left right : Value) : Exec Bool := do
  match left, right with
  | .none, .none => return true
  | .none, _ | _, .none => return false
  | .ref a, .ref b => return a == b
  | _, _ => unsupported .identity

def conjunction (left right : Value) : Value :=
  match left, right with
  | .bool a, .bool b => .bool (a && b)
  | .int a, .int b => .int (a &&& b)
  | _, _ => if left.truthy then right else left

def disjunction (left right : Value) : Value :=
  match left, right with
  | .bool a, .bool b => .bool (a || b)
  | .int a, .int b => .int (a ||| b)
  | _, _ => if left.truthy then left else right

/-- A sum; texts and lists are joined. -/
def sum (left right : Value) : Exec Value := do
  let h ← heap
  match left, right with
  | .str a, .str b => return .str (a ++ b)
  | _, _ =>
    match h.items? left, h.items? right with
    | some xs, some ys => list (xs ++ ys)
    | _, _ => ofExcept (h.arithmetic .add left right)

def arithmetic (op : ArithmeticOp) (left right : Value) : Exec Value := do
  ofExcept ((← heap).arithmetic op left right)

def negative : Value → Exec Value
  | .int i => return .int (-i)
  | .float x => return .float (-x)
  | .bool b => return .int (if b then -1 else 0)
  | v => do unsupported (.negation (← describe v))

/-- A comparison; with not-a-number it is always false. -/
def comparison (left right : Value) (holds : Ordering → Bool) : Exec Value := do
  if left.isNaN || right.isNaN then return .bool false
  return .bool (holds (← ofExcept ((← heap).compare left right)))

def append (v item : Value) : Exec Value := do
  match v, (← heap).items? v with
  | .ref id, some _ =>
    modifyHeap (·.modify id fun
      | .list items => .list (items ++ [item])
      | o => o)
    return item
  | _, _ => typeFault .appendToNonList

/-- The number of dimensions. -/
def dim (h : Heap) (v : Value) : Value :=
  match (h.attribute? v "size").bind h.items? with
  | some items => .ofSize items.length
  | none => .unknown

/-- Length of a text, list, dictionary or byte string; else the first dimension. -/
def length (h : Heap) (v : Value) : Value :=
  match v, h.object? v with
  | .str s, _ => .ofSize s.length
  | _, some (.list items) => .ofSize items.length
  | _, some (.dict d) => .ofSize d.size
  | _, some (.bytes b) => .ofSize b.length
  | _, _ => ((h.attribute? v "size").bind (h.item? · (.int 0))).getD .unknown

/-- The size of a tensor, or one dimension of it. -/
def tensorSize (h : Heap) (v dimension : Value) : Value :=
  match h.attribute? v "size" with
  | none => .unknown
  | some size => if dimension.isNone then size else (h.item? size dimension).getD .unknown

/-- Where a bound of a slice lies: a negative one counts from the end, and none lies outside. -/
def clampBound (length : Nat) (bound : Int) : Nat :=
  min length (if bound < 0 then bound + length else bound).toNat

/-- The items between two bounds. -/
def between {α : Type} (items : List α) (start stop : Option Int) : List α :=
  let first := clampBound items.length (start.getD 0)
  let last := clampBound items.length (stop.getD items.length)
  (items.drop first).take (last - first)

/-- The part of a text or list between two bounds; any other value is its own slice. -/
def slice (v start stop step : Value) : Exec Value := do
  let bound (b : Value) : Option Int := b.whole?.map (·.toInt)
  let single : Exec Unit :=
    if (step.whole?.getD 1) = 1 then return else unsupported .sliceStep
  match v, (← heap).items? v with
  | .str s, _ => do
    single
    return .str (String.ofList (between s.toList (bound start) (bound stop)))
  | _, some items => do
    single
    list (between items (bound start) (bound stop))
  | _, none => return v

end Builtin

end ModelGraph
