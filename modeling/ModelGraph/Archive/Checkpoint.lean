import ModelGraph.Archive.Bundle
import ModelGraph.Archive.Stream
import ModelGraph.Archive.Tar
import ModelGraph.Trace.Forward

/-!
# Checkpoints

An opened checkpoint is loaded at its first use and keeps what it has loaded; a load that fails is
tried again at the next use.
-/

namespace ModelGraph

/-- How an opened checkpoint is laid out. -/
inductive OpenedLayout where
  | bundle (content : Bundle)
  | stream
  | tar
  deriving Inhabited

structure Checkpoint where
  source : Source
  layout : OpenedLayout
  machine : Machine
  loaded? : Option Loaded := none
  trace? : Option Trace := none
  deriving Inhabited

/-- An action on an opened checkpoint. -/
abbrev OnCheckpoint (α : Type) := ExceptT LoadError (StateM Checkpoint) α

namespace Checkpoint

/-- Opens a source, to be loaded into a machine. -/
def openIn (source : Source) (machine : Machine) : Except LoadError Checkpoint := do
  match ← source.layout with
  | .bundle directory =>
    let (b, machine) ← Bundle.openIn source directory machine
    return { source, layout := .bundle b, machine }
  | .stream => return { source, layout := .stream, machine }
  | .tar => return { source, layout := .tar, machine }

/-- The name of the format. -/
def format (c : Checkpoint) : String :=
  match c.layout with
  | .bundle b => b.format
  | .stream => StreamLayout.label
  | .tar => TarLayout.label

/-- What wrote the checkpoint, where that is recorded. -/
def producer? (c : Checkpoint) : Option String :=
  match c.layout with
  | .bundle b => b.producer?
  | _ => none

/-- Loads the source by its layout. -/
def read (c : Checkpoint) : Except LoadError Loaded × Machine :=
  match c.layout with
  | .bundle b => Restore.on c.machine () (b.read c.source)
  | .stream => Restore.on c.machine {} (StreamLayout.read c.source)
  | .tar => Restore.on c.machine {} (TarLayout.read c.source)

/-- What the checkpoint holds. -/
def load : OnCheckpoint Loaded := do
  let c ← get
  match c.loaded? with
  | some loaded => return loaded
  | none =>
    let (result, machine) := c.read
    set { c with machine }
    let loaded ← ofExcept result
    modify fun c => { c with loaded? := some loaded }
    return loaded

/-- The first load gives what reading the source gives, and keeps it if the reading succeeds. -/
theorem run_load {c : Checkpoint} {result : Except LoadError Loaded} {machine : Machine}
    (hnew : c.loaded? = none) (hread : c.read = (result, machine)) :
    load.run c = (result, { c with machine, loaded? := result.toOption }) := by
  obtain ⟨source, layout, before, _, trace?⟩ := c
  obtain rfl : _ = none := hnew
  unfold load
  simp only [hread, bind, ExceptT.bind, ExceptT.mk, ExceptT.run, StateT.bind, ExceptT.bindCont, get,
    getThe, MonadStateOf.get, liftM, monadLift, MonadLift.monadLift, ExceptT.lift, StateT.get, pure,
    Functor.map, StateT.map]
  cases result <;> rfl

def content : OnCheckpoint Content := return (← load).content

def littleEndian : OnCheckpoint Bool := return (← load).littleEndian

/-- Runs an action of the machine. -/
def exec {α : Type} (action : Exec α) : OnCheckpoint α := do
  let result ← modifyGet fun c =>
    let (result, machine) := action.run c.machine
    (result, { c with machine })
  match result with
  | .ok a => return a
  | .error e => throw (.run e)

/-- Binds the functions of the code entries to their modules. -/
def attachCode (directory : String) : List (Value × String) → OnCheckpoint Unit
  | [] => return
  | (module, key) :: rest => do
    let data ← ofExcept ((← get).source.entry (directory ++ key))
    let _ ← exec (Exec.attachFunctions module (Text.utf8Lossy data) key)
    attachCode directory rest

/-- The trace of a bundle with code, made once. -/
def traceBundle (directory : String) (catalog : Operator.Catalog) : OnCheckpoint (Option Trace) := do
  match (← get).trace? with
  | some t => return some t
  | none =>
    let loaded ← load
    match loaded.content with
    | .script root =>
      attachCode directory loaded.codeEntries
      let t ← exec (Exec.traceForward root catalog)
      modify fun c => { c with trace? := some t }
      return some t
    | _ => return none

/-- The trace of `forward`; nothing for layouts without code. -/
def trace (catalog : Operator.Catalog) : OnCheckpoint (Option Trace) := do
  match (← get).layout with
  | .bundle b => traceBundle b.directory catalog
  | _ => return none

end Checkpoint

end ModelGraph
