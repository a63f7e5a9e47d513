import ModelGraph.Archive.Storages

/-!
# Single streams

One run of bytes holds five pickles: the magic number, the protocol, a record about the system, the
root object, and the list of storage keys. The raw bytes of the storages follow in the order of that
list, each after its element count. The root refers to storages by persistent ids
`('storage', type, root key, location, size, view)`. A root key stands for one storage, and so does the
key of a view, which begins some elements into its root storage.
-/

namespace ModelGraph.StreamLayout

def label : String := "PyTorch v0.1.10"

def protocol : Int64 := 1001

/-- A view that waits for the bytes of its root storage. -/
structure PendingView where
  view : Value
  rootKey : String
  offset : Nat
  deriving DecidableEq, Inhabited

/-- The storages and views that references have been resolved to, by key. -/
structure Table where
  storages : OrderedMap String Value := {}
  views : OrderedMap String Value := {}
  pending : List PendingView := []
  deriving Inhabited

open Restore Pickle

/-- The storage of a root key, made at its first use. -/
def rootStorage (key : String) (type size : Value) : Restore Table Value := do
  match (← get).table.storages.get? key with
  | some v => return v
  | none =>
    let made ← newStorage type (← ofExcept (declaredCount size))
    modify fun w => { w with table := { w.table with storages := w.table.storages.insert key made } }
    return made

/-- The view of a view key, made at its first use. -/
def viewStorage (key rootKey : String) (type offset size : Value) : Restore Table Value := do
  match (← get).table.views.get? key with
  | some v => return v
  | none =>
    let made ← newStorage type (← ofExcept (declaredCount size))
    let offset ← ofExcept (declaredCount offset)
    modify fun w =>
      let t := w.table
      { w with table :=
        { t with
          views := t.views.insert key made
          pending := t.pending ++ [{ view := made, rootKey, offset }] } }
    return made

/-- Resolves a persistent id. -/
def resolve (id : Value) : Restore Table Value := do
  let parts ← items id
  match parts with
  | .str "module" :: rest => return rest.headD .none
  | .str "storage" :: type :: key :: _ :: size :: view :: _ =>
    let rootKey ← ofExcept (keyText key)
    let root ← rootStorage rootKey type size
    match ← items view with
    | [key, offset, size] => viewStorage (← ofExcept (keyText key)) rootKey type offset size
    | _ => return root
  | .str "storage" :: _ => throw (.format .storageReference)
  | _ => throw (.format (.persistentKind (← describe id)))

/-- Reads the bytes of the storage with a key. -/
def readStorage (key : Value) : Reading Table Unit := do
  let key ← ofExcept (keyText key)
  match (← Reading.act get).table.storages.get? key with
  | none => throw (.unresolved key)
  | some storage =>
    let declared := (((← Reading.act heap).storage? storage).map (·.storage.size)).getD 0
    let size ← ofExcept (elementCount (← Reading.signed 8))
    if size ≠ declared then throw (.protocol (.storageLength key declared size))
    let data ← Reading.bytes (← Reading.act (storageLength storage))
    Reading.act (fillStorage storage data)

/-- Fills a view from its root storage. -/
def fillView (p : PendingView) : Restore Table Unit := do
  match (← get).table.storages.get? p.rootKey with
  | none => return
  | some root =>
    match (← heap).storage? root with
    | none => return
    | some s => setStorage p.view fun view => s.storage.view p.offset view.size

/-- Reads the whole stream. -/
def readStream : Reading Table Loaded := do
  let _ ← load
  let declared ← load
  if declared.int? ≠ some protocol then
    throw (.protocol (.version (← Reading.act (describe declared))))
  let system ← load
  let littleEndian ← ofExcept ((← Reading.act heap).checkSystem system protocol)
  let root ← loadWith resolve
  if root.isNone then throw (.format .absentRoot)
  let keys ← load
  for key in ← Reading.act (items keys) do readStorage key
  for p in (← Reading.act get).table.pending do Reading.act (fillView p)
  return { content := ← ofExcept ((← Reading.act heap).classify root), littleEndian }

/-- Loads a source of this layout. -/
def read (s : Source) : Restore Table Loaded := do
  match s.stream? with
  | none => throw (.missingEntry "<stream>")
  | some data =>
    if Source.hasMagic data then
      ExceptT.mk (Functor.map Prod.fst (readStream.run.run (Cursor.start data)))
    else throw (.protocol .magic)

end ModelGraph.StreamLayout
