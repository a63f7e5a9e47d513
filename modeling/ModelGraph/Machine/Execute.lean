import ModelGraph.Machine.Evaluate

/-!
# Statements

Loops run over lists only, and conditions are truth values: a script whose course depends on what is
not known here is not supported.
-/

namespace ModelGraph

open Exec
open Script (Expr Statement)

namespace Host

/-- The package of a name that a script imports. -/
def importedModule (host : Host) (name : String) (scope : Scope) : Exec Value := do
  match (← heap).resolve? scope (Script.dotParts name) with
  | some v => return v
  | none =>
    match ← host.package name with
    | some v => return v
    | none => throw (.unresolvedModule name)

/-- The scope from the nearest class body or package on outward. -/
def ownerScope (h : Heap) (scope : Scope) : Scope :=
  scope.dropWhile fun id => !(h.isClassBody id || h.isPackage id)

/-- Binds a function: in a class body a method, whose scope is that around the class, otherwise a
function of the package. -/
def define (definition : Script.Function) (scope : Scope) : Exec Unit := do
  let h ← heap
  let bind (module : String) (method : Bool) (globals : Scope) : Exec Unit := do
    let made ← alloc
      (.function { module, name := definition.name, kind := .script definition globals, method })
    assign scope definition.name made
  match ownerScope h scope with
  | [] => unsupported .functionScope
  | owner :: around =>
    match h.get? owner with
    | some (.class c) =>
      bind (qualify c.module c.name) true (if around.isEmpty then rootScope else around)
    | some (.namespace n) => bind ((n.package?.map (·.name)).getD "") false scope
    | _ => unsupported .functionScope

/-- The container whose item is assigned. The dictionary of annotations comes into being when it is
first needed. -/
def assignedContainer (host : Host) (target : Expr) (scope : Scope) : Exec Value := do
  match target with
  | .id name =>
    match (← heap).lookup? scope name with
    | some v => return v
    | none =>
      if name = "__annotations__" then
        let made ← dict
        assign scope name made
        return made
      else typeFault (.undefined name)
  | _ => host.evaluate target scope

mutual

def assignTo (host : Host) (scope : Scope) : Expr → Value → Exec Unit
  | .id name, v => assign scope name v
  | .subscript target [index], v => do
    let container ← host.assignedContainer target scope
    let key ← host.evaluate index scope
    let h ← heap
    if h.takesItem container key then modifyHeap (·.setItem container key v)
    else typeFault (.itemAssignment (h.describe container))
  | .attr target member, v => do
    let object ← host.evaluate target scope
    let h ← heap
    if h.takesAttributes object then setAttribute object member v
    else typeFault (.attributeAssignment member (h.describe object))
  | .tuple targets, v => unpackTo host scope targets v
  | .list targets, v => unpackTo host scope targets v
  | _, _ => unsupported .assignmentTarget

def unpackTo (host : Host) (scope : Scope) (targets : List Expr) (v : Value) : Exec Unit := do
  let h ← heap
  match h.items? v with
  | some items =>
    if items.length = targets.length then assignAll host scope targets items
    else unsupported (.unpacking (h.describe v) targets.length)
  | none => unsupported (.unpacking (h.describe v) targets.length)

def assignAll (host : Host) (scope : Scope) : List Expr → List Value → Exec Unit
  | target :: targets, v :: vs => do
    assignTo host scope target v
    assignAll host scope targets vs
  | _, _ => return

end

/-- Runs a body once for each item. -/
def loop (host : Host) (scope : Scope) (name : String) (body : List Statement) :
    List Value → Exec Flow
  | [] => return .next
  | v :: rest => do
    assign scope name v
    match ← host.block body scope with
    | .return v => return .return v
    | .next => host.loop scope name body rest

/-- Binds the names that a script imports from a package. -/
def importNames (host : Host) (scope : Scope) (module : String) (package : Value) :
    List Script.ImportName → Exec Unit
  | [] => return
  | i :: rest => do
    let v ← match ← attribute? package i.name with
      | some v => pure v
      | none => do pure ((← host.typeOf (module ++ "." ++ i.name)).getD .none)
    assign scope i.binding v
    host.importNames scope module package rest

/-- Binds the packages that a script imports under other names. -/
def importModules (host : Host) (scope : Scope) : List Script.ImportName → Exec Unit
  | [] => return
  | i :: rest => do
    if let some binding := i.localName? then assign scope binding (← host.importedModule i.name scope)
    host.importModules scope rest

/-- Runs one statement. -/
def execute (host : Host) (s : Statement) (scope : Scope) : Exec Flow := do
  match s with
  | .pass => return .next
  | .return none => return .return .none
  | .return (some e) => return .return (← host.evaluate e scope)
  | .defineFunction name parameters returns body =>
    define { name, parameters, returns, body } scope
    return .next
  | .defineClass name _ body =>
    let module := (((← heap).lookup? scope "__name__").bind Value.str?).getD ""
    let made ← alloc (.class { module, name, kind := .user })
    assign scope name made
    let _ ← host.block body (made.ref?.getD 0 :: scope)
    return .next
  | .declare name _ =>
    assign scope name .none
    return .next
  | .assign target value =>
    host.assignTo scope target (← host.evaluate value scope)
    return .next
  | .branch condition thenBody elseBody =>
    match ← host.evaluate condition scope with
    | .bool true => host.block thenBody scope
    | .bool false => host.block elseBody scope
    | v => unsupported (.condition (← describe v))
  | .for [.id name] [iterable] body =>
    let v ← host.evaluate iterable scope
    let h ← heap
    match h.items? v with
    | some items => host.loop scope name body items
    | none => unsupported (.forIterable (h.describe v))
  | .for _ _ _ => unsupported .forLoop
  | .while condition _ =>
    match ← host.evaluate condition scope with
    | .bool false => return .next
    | _ => unsupported .whileLoop
  | .expr e =>
    let _ ← host.evaluate e scope
    return .next
  | .imports names =>
    host.importModules scope names
    return .next
  | .importsFrom module names =>
    let package ← host.importedModule module scope
    host.importNames scope module package names
    return .next

/-- Runs statements until one returns. -/
def blockStep (host : Host) (scope : Scope) : List Statement → Exec Flow
  | [] => return .next
  | s :: rest => do
    match ← host.execute s scope with
    | .return v => return .return v
    | .next => host.blockStep scope rest

end Host

end ModelGraph
