import ModelGraph.Machine.Error
import ModelGraph.Object.Scope
import ModelGraph.Trace.Basic

/-!
# The script machine

The state of one load and the actions on it. An action may fail; the state it has reached is kept.
Actions that start each other in cycles (expressions run calls, calls run statements, names load
packages) take the others from a `Host`; the modules that define them stay apart that way.
-/

namespace ModelGraph

structure Machine where
  heap : Heap
  /-- The namespaces of the packages whose loading has begun. -/
  packages : OrderedMap String Nat := {}
  /-- Code files by path. -/
  sources : OrderedMap String String := {}
  diagnostics : Diagnostics := .standard
  /-- The trace under way. -/
  tracer? : Option Tracer := none
  deriving Inhabited

namespace Machine

def withDiagnostics (m : Machine) (d : Diagnostics) : Machine := { m with diagnostics := d }

/-- Adds a code file. The package `a.b` is at `a/b.py`. -/
def addSource (m : Machine) (path source : String) : Machine :=
  { m with sources := m.sources.insert path source }

end Machine

/-- The scope of the names that all scripts see: the first object of the heap. -/
def rootScope : Scope := [0]

/-- An action on the machine. -/
abbrev Exec (α : Type) := ExceptT RunError (StateM Machine) α

/-- The arguments of a call. -/
structure Arguments where
  positional : List Value := []
  named : List (String × Value) := []

/-- All values, the named ones last. -/
def Arguments.values (a : Arguments) : List Value := a.positional ++ a.named.map (·.2)

/-- How a block of statements ends. -/
inductive Flow where
  | next
  | return (value : Value)

/-- The actions that others start. -/
structure Host where
  evaluate : Script.Expr → Scope → Exec Value
  block : List Script.Statement → Scope → Exec Flow
  /-- The globals of a package, loaded at its first use; nothing if it has no source. -/
  package : String → Exec (Option Value)
  /-- The call of a class or function, perhaps through an object. -/
  call : (callee : Value) → (receiver : Option Value) → Arguments → Exec Value

namespace Exec

def unsupported {α : Type} (part : Unsupported) : Exec α := throw (.unsupported part)

def typeFault {α : Type} (fault : TypeFault) : Exec α := throw (.type fault)

def heap : Exec Heap := return (← get).heap

def modifyHeap (change : Heap → Heap) : Exec Unit :=
  modify fun m => { m with heap := change m.heap }

/-- Puts an object on the heap. -/
def alloc (o : Object) : Exec Value :=
  modifyGet fun m => (.ref m.heap.size, { m with heap := m.heap.push o })

def list (items : List Value) : Exec Value := alloc (.list items)

def dict (entries : Dict := {}) : Exec Value := alloc (.dict entries)

def bytes (data : Bytes) : Exec Value := alloc (.bytes data)

/-- A bare record of the given type. -/
def record (module name : String) (class? : Option Nat := none) : Exec Value :=
  alloc (.instance { module, name, class? })

def describe (v : Value) : Exec String := return (← heap).describe v

def attribute? (v : Value) (name : String) : Exec (Option Value) :=
  return (← heap).attribute? v name

def setAttribute (v : Value) (name : String) (value : Value) : Exec Unit :=
  modifyHeap (·.setAttribute v name value)

def setAttributes (v : Value) (entries : List (String × Value)) : Exec Unit :=
  modifyHeap (·.setAttributes v entries)

/-- The items of a list or tuple; none of any other value. -/
def items (v : Value) : Exec (List Value) := return ((← heap).items? v).getD []

def assign (scope : Scope) (name : String) (value : Value) : Exec Unit :=
  modifyHeap (·.assign scope name value)

/-- What a dotted name means in the root scope. -/
def global? (name : String) : Exec (Option Value) :=
  return (← heap).resolve? rootScope (Script.dotParts name)

def bindGlobal (name : String) (value : Value) : Exec Unit :=
  modifyHeap (·.bind rootScope (Script.dotParts name) value)

def report (message : String) : Exec Unit :=
  modify fun m => { m with diagnostics := m.diagnostics.report message }

/-- Stands in for what an unknown name would have made: a bare record of that type. -/
def placeholder (name : String) : Exec Value := do
  modify fun m => { m with diagnostics := m.diagnostics.unknownName name }
  let (module, member) := splitQualified name
  record module member

end Exec

namespace Host

open Exec

/-- The type or function of a qualified name, with its package loaded if need be. -/
def typeOf (host : Host) (name : String) : Exec (Option Value) := do
  match ← global? name with
  | some found => return some found
  | none =>
    let (module, member) := splitQualified name
    if module.isEmpty then return none
    match ← host.package module with
    | some globals => attribute? globals member
    | none => return none

/-- Calls the class or function of a qualified name; an unknown name gives a bare record. -/
def invoke (host : Host) (name : String) (arguments : List Value) : Exec Value := do
  match ← host.typeOf name with
  | some callee => host.call callee none { positional := arguments }
  | none => placeholder name

end Host

end ModelGraph
