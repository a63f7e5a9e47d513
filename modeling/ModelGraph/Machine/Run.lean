import ModelGraph.Machine.Execute
import ModelGraph.Script.Grammar

/-!
# Running the machine

The actions are tied together here: a host of depth `n + 1` runs each action with the host of depth
`n` for the others, so every run ends. The depth of nesting that the machine allows is far beyond
what any script reaches.
-/

namespace ModelGraph

open Exec

namespace Host

/-- The namespace that becomes the globals of a package: the one bound to its name, or a new one. -/
def packageNamespace (name : String) : Exec Nat := do
  let bound? ← global? name
  let h ← heap
  match bound?, bound?.bind h.object? with
  | some (.ref id), some (.namespace _) => return id
  | _, _ =>
    let made ← alloc (.namespace {})
    bindGlobal name made
    return made.ref?.getD 0

/-- Parses a code file. -/
def parseFile (file source : String) : Exec (List Script.Statement) :=
  match Script.parse source with
  | .ok statements => return statements
  | .error e => throw (.parse file e)

/-- Loads a package at its first use; its globals count as loaded from then on. -/
def loadPackage (host : Host) (name : String) : Exec (Option Value) := do
  let m ← get
  match m.packages.get? name with
  | some id => return some (.ref id)
  | none =>
    let file := name.replace "." "/" ++ ".py"
    match m.sources.get? file with
    | none => return none
    | some source =>
      let id ← packageNamespace name
      modifyHeap (·.modify id fun
        | .namespace n =>
          .namespace { package? := some ⟨name, file⟩, fields := n.fields.insert "__name__" (.str name) }
        | o => o)
      modify fun m => { m with packages := m.packages.insert name id }
      let statements ← parseFile file source
      let _ ← host.block statements (id :: rootScope)
      return some (.ref id)

/-- Each action, with another host for the actions it starts. -/
def step (host : Host) : Host where
  evaluate e scope := host.evaluateStep e scope
  block statements scope := host.blockStep scope statements
  package name := host.loadPackage name
  call callee receiver arguments := host.dispatch callee receiver arguments

/-- The host that refuses everything. -/
def exhausted : Host where
  evaluate _ _ := throw .tooDeep
  block _ _ := throw .tooDeep
  package _ := throw .tooDeep
  call _ _ _ := throw .tooDeep

/-- The host for a depth of nesting. -/
def ofDepth : (depth : Nat) → Host
  | 0 => exhausted
  | depth + 1 =>
    { evaluate := fun e scope => (ofDepth depth).step.evaluate e scope
      block := fun statements scope => (ofDepth depth).step.block statements scope
      package := fun name => (ofDepth depth).step.package name
      call := fun callee receiver arguments => (ofDepth depth).step.call callee receiver arguments }

theorem ofDepth_succ (depth : Nat) : ofDepth (depth + 1) = (ofDepth depth).step := rfl

/-- How deep actions may nest. -/
def maxDepth : Nat := 1000000000

/-- The host that every load uses. -/
def standard : Host := ofDepth maxDepth

end Host

namespace Exec

/-- The globals of a package; nothing if there is no source for it. -/
def package (name : String) : Exec (Option Value) := Host.standard.package name

/-- The type or function of a qualified name. -/
def typeOf (name : String) : Exec (Option Value) := Host.standard.typeOf name

/-- Calls what a qualified name means. -/
def invoke (name : String) (arguments : List Value) : Exec Value :=
  Host.standard.invoke name arguments

/-- Calls a class or function. -/
def call (callee : Value) (arguments : List Value) : Exec Value :=
  Host.standard.call callee none { positional := arguments }

/-- Applies a saved state to an object. -/
def setState (target state : Value) : Exec Unit := Host.standard.setState target state

/-- Binds the functions of a code file as methods of a module; how many they are. -/
def attachFunctions (module : Value) (source file : String) : Exec Nat := do
  let statements ← Host.parseFile file source
  let owner := match (← heap).typeName? module with
    | some (m, n) => qualify m n
    | none => ""
  let definitions := statements.filterMap fun
    | .defineFunction name parameters returns body =>
      some ({ name, parameters, returns, body } : Script.Function)
    | _ => none
  for d in definitions do
    let made ← alloc (.function
      { module := owner, name := d.name, kind := .script d rootScope, method := true })
    setAttribute module d.name made
  return definitions.length

end Exec

end ModelGraph
