import ModelGraph.Object.Value
import ModelGraph.Pickle.Opcode
import ModelGraph.Pickle.Reading
import ModelGraph.Pickle.Scalar

/-!
# Loading pickles

A pickle is a program for a machine with a stack, marks on it, and a memo of values by number. Names
of classes and functions stand as texts until they are called. Each load begins with an empty stack
and memo; several may follow each other in the same bytes.
-/

namespace ModelGraph.Pickle

/-- What a load works on: the stack, its top first, the stack's heights at the marks, and the memo. -/
structure Work where
  stack : List Value := []
  marks : List Nat := []
  memo : OrderedMap Nat Value := {}
  deriving Inhabited

namespace Work

def push (w : Work) (v : Value) : Work := { w with stack := v :: w.stack }

/-- The top of the stack and what is below. -/
def pop? (w : Work) : Except PickleFault (Value × Work) :=
  match w.stack with
  | v :: rest => .ok (v, { w with stack := rest })
  | [] => .error .stackUnderflow

def top? (w : Work) : Except PickleFault Value :=
  match w.stack with
  | v :: _ => .ok v
  | [] => .error .stackUnderflow

/-- Takes a number of values off the stack, the lowest first. -/
def take? (w : Work) (count : Nat) (fault : PickleFault) : Except PickleFault (List Value × Work) :=
  if w.stack.length < count then .error fault
  else .ok ((w.stack.take count).reverse, { w with stack := w.stack.drop count })

/-- The height of the last mark, which is taken away. -/
def popMark? (w : Work) : Except PickleFault (Nat × Work) :=
  match w.marks with
  | height :: marks => .ok (height, { w with marks })
  | [] => .error .noMark

/-- Takes the values above the last mark off the stack, the lowest first. -/
def popToMark? (w : Work) : Except PickleFault (List Value × Work) := do
  let (height, w) ← w.popMark?
  if w.stack.length < height then throw .markBeyondStack
  w.take? (w.stack.length - height) .stackUnderflow

/-- Keeps the top of the stack in the memo. -/
def remember (w : Work) (index : Nat) : Except PickleFault Work := do
  let v ← w.top?
  return { w with memo := w.memo.insert index v }

/-- Drops what is above a height. -/
def truncate (w : Work) (height : Nat) : Work :=
  { w with stack := w.stack.drop (w.stack.length - height) }

/-- Drops the top of the stack, or a mark if the stack is empty. -/
def discard (w : Work) : Work :=
  match w.stack with
  | _ :: rest => { w with stack := rest }
  | [] => { w with marks := w.marks.tail }

end Work

variable {τ : Type}

/-- Turns a fault into a failure at an offset. -/
def Reading.ofFault {α : Type} (offset : Nat) (result : Except PickleFault α) : Reading τ α :=
  match result with
  | .ok a => return a
  | .error fault => failAt offset fault

open Reading

/-- Calls a value: a text is the name of what is called. -/
def callValue (callee : Value) (arguments : List Value) : Restore τ Value :=
  match callee with
  | .str name => .exec (Exec.invoke name arguments)
  | _ => .exec (Exec.call callee arguments)

/-- Appends items to a list. -/
def extendList (offset : Nat) (target : Value) (items : List Value) : Reading τ Unit := do
  match target, (← act Restore.heap).items? target with
  | .ref id, some _ =>
    act (Restore.modifyHeap (·.modify id fun
      | .list old => .list (old ++ items)
      | o => o))
  | _, _ => failAt offset .appendTarget

/-- Sets items by keys and values in turn; a key without value is left out. -/
def setItems (offset : Nat) (target : Value) : List Value → Reading τ Unit
  | key :: value :: rest => do
    let h ← act Restore.heap
    if h.takesItem target key then
      act (Restore.modifyHeap (·.setItem target key value))
      setItems offset target rest
    else failAt offset (.itemTarget (h.describe target))
  | _ => return

/-- The items of a tuple of arguments. -/
def argumentItems (offset : Nat) (v : Value) : Reading τ (List Value) := do
  match (← act Restore.heap).items? v with
  | some items => return items
  | none => failAt offset .argumentTuple

/-- A qualified name in two lines. -/
def globalName : Reading τ String := do
  let module ← line
  return module ++ "." ++ (← line)

/-- An index into the memo, written in digits. -/
def indexLine (offset : Nat) : Reading τ Nat := do
  let text ← line
  match sizeNumeral? (Text.trim text.toList) with
  | some index => return index
  | none => failAt offset (.memoIndex text)

def intOfText (offset : Nat) (text : String) : Reading τ Value :=
  match integer? text with
  | some v => return v
  | none => failAt offset (.integer (Text.trimString text))

def floatOfText (offset : Nat) (text : String) : Reading τ Value :=
  match floatNumeral? (Text.trim text.toList) with
  | some x => return .float x
  | none => failAt offset (.float text)

/-- Pushes the value under an index of the memo. -/
def pushMemo (offset : Nat) (w : Work) (index : Nat) : Reading τ Work :=
  match w.memo.get? index with
  | some v => return w.push v
  | none => failAt offset (.unknownMemo index)

/-- The value that an instruction pushes, where that is all it does. -/
def scalar? (offset : Nat) : Opcode → Option (Reading τ Value)
  | .none => some (return .none)
  | .bool b => some (return .bool b)
  | .intLine => some do
    match ← line with
    | "00" => return .bool false
    | "01" => return .bool true
    | text => intOfText offset text
  | .longLine => some do intOfText offset (beforeLongMarks (← line))
  | .floatLine => some do floatOfText offset (← line)
  | .unsigned width => some do return .ofSize (← size width)
  | .int32 => some do return .int (← signed 4)
  | .long width => some do return long (← counted width)
  | .double => some do
    return .float (Float.ofBits (UInt64.ofNat (natOfBytes (← bytes 8).reverse)))
  | .stringLine => some do return .str (unquote (← line))
  | .latin1 width => some do return .str (Text.latin1 (← counted width))
  | .unicodeLine => some do return .str (String.ofList (unescapeUnicode (← line).toList))
  | .utf8 width => some do return .str (Text.utf8Lossy (← counted width))
  | .bytes width => some do
    let data ← counted width
    act (.exec (Exec.bytes data))
  | .emptyList => some (act (.exec (Exec.list [])))
  | .emptyDict => some (act (.exec Exec.dict))
  | .global => some do return .str (← globalName)
  | _ => Option.none

/-- Runs an instruction other than the one that stops. `offset` is where it stands. -/
def step (persistent : Value → Restore τ Value) (offset : Nat) (op : Opcode) (w : Work) :
    Reading τ Work := do
  let get {α : Type} (result : Except PickleFault α) : Reading τ α := ofFault offset result
  match op with
  | .protocol => let _ ← bytes 1; return w
  | .frame => let _ ← bytes 8; return w
  | .readOnly | .stop => return w
  | .mark => return { w with marks := w.stack.length :: w.marks }
  | .pop => return w.discard
  | .popMark =>
    let (height, w) ← get w.popMark?
    return w.truncate height
  | .duplicate => return w.push (← get w.top?)
  | .list =>
    let (items, w) ← get w.popToMark?
    return w.push (← act (.exec (Exec.list items)))
  | .tuple count =>
    let (items, w) ← get (w.take? count .tupleUnderflow)
    return w.push (← act (.exec (Exec.list items)))
  | .append =>
    let (v, w) ← get w.pop?
    extendList offset (← get w.top?) [v]
    return w
  | .appends =>
    let (items, w) ← get w.popToMark?
    extendList offset (← get w.top?) items
    return w
  | .dict =>
    let (items, w) ← get w.popToMark?
    let made ← act (.exec Exec.dict)
    setItems offset made items
    return w.push made
  | .setItem =>
    let (v, w) ← get w.pop?
    let (key, w) ← get w.pop?
    setItems offset (← get w.top?) [key, v]
    return w
  | .setItems =>
    let (items, w) ← get w.popToMark?
    setItems offset (← get w.top?) items
    return w
  | .putLine =>
    let index ← indexLine offset
    get (w.remember index)
  | .put width =>
    let index ← size width
    get (w.remember index)
  | .memoize => get (w.remember w.memo.size)
  | .getLine => pushMemo offset w (← indexLine offset)
  | .fetch width => pushMemo offset w (← size width)
  | .stackGlobal =>
    let (name, w) ← get w.pop?
    let (module, w) ← get w.pop?
    match module, name with
    | .str module, .str name => return w.push (.str (module ++ "." ++ name))
    | _, _ => failAt offset .globalNames
  | .reduce =>
    let (tuple, w) ← get w.pop?
    let (callee, w) ← get w.pop?
    let arguments ← argumentItems offset tuple
    return w.push (← act (callValue callee arguments))
  | .newObjectWithKeywords =>
    let (_, w) ← get w.pop?
    let (tuple, w) ← get w.pop?
    let (callee, w) ← get w.pop?
    let arguments ← argumentItems offset tuple
    return w.push (← act (callValue callee arguments))
  | .instantiate =>
    let name ← globalName
    let (arguments, w) ← get w.popToMark?
    return w.push (← act (.exec (Exec.invoke name arguments)))
  | .object =>
    let (items, w) ← get w.popToMark?
    match items with
    | [] => failAt offset .noClass
    | callee :: arguments => return w.push (← act (callValue callee arguments))
  | .build =>
    let (state, w) ← get w.pop?
    let target ← get w.top?
    act (.exec (Exec.setState target state))
    return w
  | .persistentLine =>
    let id ← line
    return w.push (← act (persistent (.str id)))
  | .persistent =>
    let (id, w) ← get w.pop?
    return w.push (← act (persistent id))
  | _ =>
    match scalar? offset op with
    | some value => return w.push (← value)
    | none => return w

/-- Runs instructions until one stops; at most as many as given. -/
def run (persistent : Value → Restore τ Value) : (count : Nat) → Work → Reading τ Value
  | 0, _ => do failAt (← offset) (.endOfData 1)
  | count + 1, w => do
    let start ← offset
    let byte := (← bytes 1).headD 0
    match Opcode.ofByte? byte with
    | none => failAt start (.opcode byte)
    | some .stop =>
      match w.stack with
      | v :: _ => return v
      | [] => failAt start .emptyStop
    | some op => run persistent count (← step persistent start op w)

/-- Loads the pickle at the cursor. Every instruction takes a byte, so the bytes left bound the
number of instructions. -/
def loadWith (persistent : Value → Restore τ Value) : Reading τ Value := do
  run persistent ((← cursor).rest.length + 1) {}

/-- The resolver for pickles that must not refer to anything outside. -/
def refuse (id : Value) : Restore τ Value := throw (.unresolved id.detailed)

/-- Loads a pickle without outside references. -/
def load : Reading τ Value := loadWith refuse

/-- Loads the pickle that some bytes begin with. -/
def loadFrom (persistent : Value → Restore τ Value) (data : Bytes) : Restore τ Value :=
  ExceptT.mk (Functor.map Prod.fst ((loadWith persistent).run.run (Cursor.start data)))

end ModelGraph.Pickle
