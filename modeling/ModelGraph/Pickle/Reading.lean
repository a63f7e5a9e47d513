import ModelGraph.Archive.Error
import ModelGraph.Machine.Run
import ModelGraph.Text.Utf8

/-!
# Reading pickled bytes

A reading has a place in the bytes, the machine that objects are made on, and a table of what outside
references have been resolved to. A reading that fails stays where it was, with the machine as it
left it.
-/

namespace ModelGraph

/-- What objects are restored into: the machine and a table of the loader's own. -/
structure Workspace (τ : Type) where
  machine : Machine
  table : τ

/-- An action on a workspace. -/
abbrev Restore (τ α : Type) := ExceptT LoadError (StateM (Workspace τ)) α

namespace Restore

variable {τ α : Type}

/-- Runs an action of the machine. -/
def exec (action : Exec α) : Restore τ α := do
  let result ← modifyGet fun w =>
    let (result, machine) := action.run w.machine
    (result, { w with machine })
  match result with
  | .ok a => return a
  | .error e => throw (.run e)

def heap : Restore τ Heap := return (← get).machine.heap

def modifyHeap (change : Heap → Heap) : Restore τ Unit := exec (Exec.modifyHeap change)

def describe (v : Value) : Restore τ String := return (← heap).describe v

/-- The items of a list or tuple; none of any other value. -/
def items (v : Value) : Restore τ (List Value) := return ((← heap).items? v).getD []

end Restore

namespace Pickle

/-- A place in some bytes. -/
structure Cursor where
  offset : Nat
  rest : Bytes
  deriving DecidableEq, Inhabited

/-- The start of some bytes. -/
def Cursor.start (data : Bytes) : Cursor := ⟨0, data⟩

/-- A reading that may also act on the workspace. -/
abbrev Reading (τ α : Type) := ExceptT LoadError (StateT Cursor (StateM (Workspace τ))) α

namespace Reading

variable {τ α : Type}

/-- An action on the workspace alone. -/
def act (action : Restore τ α) : Reading τ α := ExceptT.mk (StateT.lift action.run)

def cursor : Reading τ Cursor := getThe Cursor

def offset : Reading τ Nat := return (← cursor).offset

/-- Fails at an offset. -/
def failAt (offset : Nat) (fault : PickleFault) : Reading τ α := throw (.pickle offset fault)

/-- The next `length` bytes. -/
def bytes (length : Nat) : Reading τ Bytes := do
  let c ← cursor
  if c.rest.length < length then failAt c.offset (.endOfData length)
  else
    set (σ := Cursor) ⟨c.offset + length, c.rest.drop length⟩
    return c.rest.take length

/-- A number of `width` bytes, lowest first. -/
def size (width : Nat) : Reading τ Nat := return natOfBytes (← bytes width)

/-- A signed number of `width` bytes, lowest first. -/
def signed (width : Nat) : Reading τ Int64 := return Int64.ofInt (intOfBytes (← bytes width))

/-- The text up to the end of a line, one character for each byte. -/
def line : Reading τ String := do
  let c ← cursor
  let text := c.rest.takeWhile (· != 10)
  if text.length < c.rest.length then
    set (σ := Cursor) ⟨c.offset + text.length + 1, c.rest.drop (text.length + 1)⟩
    return Text.latin1 text
  else failAt c.offset .unterminatedLine

/-- A run of bytes after its length, which takes `width` bytes. -/
def counted (width : Nat) : Reading τ Bytes := do bytes (← size width)

end Reading

end Pickle

end ModelGraph
