import ModelGraph.Archive.Storages

/-!
# Archives of the first releases

Four entries: a record about the system; the storages, each as a pickled record
`(key, location, type)` with its element count and raw bytes; the tensors, each as a pickled record
`(key, storage key)` with its shape, strides and offset; and the root object, which refers to tensors
by key.
-/

namespace ModelGraph.TarLayout

def label : String := "PyTorch v0.1.1"

def protocol : Int64 := 1000

/-- The storages and tensors, by key. -/
abbrev Table := OrderedMap Key Value

open Restore Pickle

/-- The number of records that an entry begins with. -/
def readCount (what : String) : Reading Table Nat := do
  match (← load).size? with
  | some n => return n
  | none => throw (.format (.count what))

/-- Runs a reading a number of times. -/
def repeatedly (reading : Reading Table Unit) : Nat → Reading Table Unit
  | 0 => return
  | n + 1 => do
    reading
    repeatedly reading n

def bindKey (key made : Value) : Restore Table Unit :=
  modify fun w => { w with table := w.table.insert (.ofValue key) made }

def readStorage : Reading Table Unit := do
  let record ← load
  match ← Reading.act (items record) with
  | key :: _ :: type :: _ =>
    let size ← ofExcept (elementCount (← Reading.signed 8))
    let made ← Reading.act (newStorage type size)
    let data ← Reading.bytes (← Reading.act (storageLength made))
    Reading.act do
      fillStorage made data
      bindKey key made
  | _ => throw (.format .storageRecord)

/-- Integers of eight bytes each. -/
def readWords : Nat → Reading Table (List Value)
  | 0 => return []
  | n + 1 => do
    let word ← Reading.signed 8
    return .int word :: (← readWords n)

/-- Makes a tensor over a storage, of the class that belongs to the storage's. -/
def newTensor (storageKey storage : Value) (shape stride : List Value) (offset : Int64) :
    Restore Table Value := do
  let h ← heap
  match h.storage? storage with
  | none => throw (.unresolved (h.describe storageKey))
  | some s =>
    let made ← exec (Exec.invoke (s.module ++ "." ++ s.tensorName) [])
    let shape ← exec (Exec.list shape)
    let stride ← exec (Exec.list stride)
    let state ← exec (Exec.list [storage, .int offset, shape, stride])
    exec (Exec.setState made state)
    return made

def readTensor : Reading Table Unit := do
  let record ← load
  match ← Reading.act (items record) with
  | key :: storageKey :: _ =>
    match (← Reading.act get).table.get? (.ofValue storageKey) with
    | none => throw (.unresolved (← Reading.act (describe storageKey)))
    | some storage =>
      match sizeOfInt64? (← Reading.signed 4) with
      | none => throw (.format .negativeRank)
      | some rank =>
        let _ ← Reading.bytes 4
        let shape ← readWords rank
        let stride ← readWords rank
        let offset ← Reading.signed 8
        Reading.act do bindKey key (← newTensor storageKey storage shape stride offset)
  | _ => throw (.format .tensorRecord)

/-- The object of a key that the root refers to. -/
def resolve (id : Value) : Restore Table Value := do
  match (← get).table.get? (.ofValue id) with
  | some v => return v
  | none => throw (.unresolved (← describe id))

/-- Runs a reading on the bytes of an entry. -/
def within {α : Type} (s : Source) (name : String) (reading : Reading Table α) :
    Restore Table α := do
  let data ← ofExcept (s.entry name)
  ExceptT.mk (Functor.map Prod.fst (reading.run.run (Cursor.start data)))

/-- Loads a source of this layout. -/
def read (s : Source) : Restore Table Loaded := do
  let system ← within s "sys_info" load
  let littleEndian ← ofExcept ((← heap).checkSystem system protocol)
  within s "storages" do repeatedly readStorage (← readCount "storages")
  within s "tensors" do repeatedly readTensor (← readCount "tensors")
  let root ← within s "pickle" (loadWith resolve)
  match (← heap).weights? root with
  | some sets => return { content := .weights sets, littleEndian }
  | none => throw .unclassifiable

end ModelGraph.TarLayout
