import ModelGraph.Machine.Call

/-!
# Expressions

A dotted name is looked up in the scope and then among the packages, unless it begins with `self` or
`CONSTANTS`. While a trace is under way, calls of operators with a schema are recorded instead of
run.
-/

namespace ModelGraph

open Exec
open Script (Expr dotParts)

/-- The dotted name of an expression that is looked up as a whole. -/
def Script.Expr.resolvable? (e : Expr) : Option String :=
  e.dottedName?.filter fun path =>
    match (dotParts path).headD "" with
    | "self" | "CONSTANTS" => false
    | _ => true

/-- The class of a name in the scopes of built-in types. -/
def Heap.builtinClass? (h : Heap) (name : String) : Option Value :=
  ["builtins", "typing", "torch"].findSome? fun package =>
    (h.resolve? rootScope [package, name]).filter fun v => (h.class? v).isSome

/-- What a name means in an expression. -/
def Heap.identifier (h : Heap) (scope : Scope) (name : String) : Value :=
  match name with
  | "None" => .none
  | "True" => .bool true
  | "False" => .bool false
  | "self" => (h.lookup? scope name).getD .none
  | _ => ((h.builtinClass? name).or (h.lookup? scope name)).getD .none

namespace Host

/-- What a dotted name means: a variable with attributes, or a package. -/
def resolvePath (host : Host) (path : String) (scope : Scope) : Exec Value := do
  match (← heap).resolve? scope (dotParts path) with
  | some v => return v
  | none => return (← host.package path).getD .none

/-- The object that a call goes through. -/
def receiver (host : Host) (e : Expr) (scope : Scope) : Exec Value :=
  match e.resolvable? with
  | some path => host.resolvePath path scope
  | none => host.evaluate e scope

/-- Evaluates the arguments of a call from left to right. -/
def arguments (host : Host) (scope : Scope) : List (Option String × Expr) → Exec Arguments
  | [] => return {}
  | (keyword, e) :: rest => do
    let v ← host.evaluate e scope
    let others ← host.arguments scope rest
    match keyword with
    | some name => return { others with named := (name, v) :: others.named }
    | none => return { others with positional := v :: others.positional }

/-- A call of a name that nothing defines. -/
def unresolvedCall (name : String) : Exec Value := do
  if (← get).diagnostics.isReported name then placeholder name
  else unsupported (.function name)

/-- Finds what is called and calls it with evaluated arguments. -/
def callTarget (host : Host) (target : Expr) (arguments : Arguments) (scope : Scope) :
    Exec Value := do
  match target with
  | .attr inner member =>
    let object ← host.receiver inner scope
    let h ← heap
    match member, h.class? object with
    | "__new__", some c => record c.module c.name object.ref?
    | _, _ =>
      match h.attribute? object member, inner.dottedName? with
      | some callee, _ => host.call callee (some object) arguments
      | none, some path =>
        let name := path ++ "." ++ member
        match ← host.typeOf name with
        | some callee => host.call callee none arguments
        | none => unresolvedCall name
      | none, none => unsupported (.member member (h.describe object))
  | .id name =>
    let callee ← host.receiver target scope
    if callee.isNone then unresolvedCall name else host.call callee none arguments
  | _ => host.call (← host.evaluate target scope) none arguments

/-- The call inside `ops.prim.NumToTensor(…)`, whose integer the trace takes for a tensor. -/
def innerCall? (path member : String) (arguments : List (Option String × Expr)) :
    Option (String × Expr × List (Option String × Expr)) :=
  match arguments with
  | [(none, .call (.attr inner innerMember) innerArguments)] =>
    if path = "ops.prim" ∧ member = "NumToTensor" then
      inner.dottedName?.map fun innerPath =>
        (innerPath ++ "." ++ innerMember, .attr inner innerMember, innerArguments)
    else none
  | _ => none

/-- Records a call of an operator that has schemas, or calls it if none of them fits; nothing for
any other call. -/
def traceCall (host : Host) (target : Expr) (unevaluated : List (Option String × Expr))
    (scope : Scope) : Exec (Option Value) := do
  let .attr inner member := target | return none
  let some path := inner.dottedName? | return none
  match innerCall? path member unevaluated with
  | some (name, innerTarget, innerArguments) =>
    let evaluated ← host.arguments scope innerArguments
    match ← matchSchemas name evaluated true (← tracedSchemas name) with
    | some v => return some v
    | none =>
      let v ← host.callTarget innerTarget evaluated scope
      return some (← host.callTarget target { positional := [v] } scope)
  | none =>
    let name := path ++ "." ++ member
    let schemas ← tracedSchemas name
    if schemas.isEmpty then return none
    let evaluated ← host.arguments scope unevaluated
    match ← matchSchemas name evaluated false schemas with
    | some v => return some v
    | none => return some (← host.callTarget target evaluated scope)

def callExpression (host : Host) (target : Expr) (unevaluated : List (Option String × Expr))
    (scope : Scope) : Exec Value := do
  let traced ← if (← get).tracer?.isSome then host.traceCall target unevaluated scope else pure none
  match traced with
  | some v => return v
  | none => host.callTarget target (← host.arguments scope unevaluated) scope

/-- An item of a container, or a generic type with its arguments. -/
def subscript (host : Host) (target : Expr) (index : List Expr) (scope : Scope) :
    Exec Value := do
  let bound? ← match target with
    | .id name => do pure ((← heap).lookup? scope name)
    | _ => pure none
  let container ← match bound? with
    | some v => pure v
    | none => host.evaluate target scope
  let indices ← index.mapM (host.evaluate · scope)
  let h ← heap
  match h.class? container, indices with
  | some { module, name, kind := .generic _, .. }, _ =>
    alloc (.class { module, name, kind := .generic indices })
  | _, [i] => return (h.item? container i).getD .none
  | _, _ => unsupported (.subscript (h.describe container))

/-- Evaluates an expression. -/
def evaluateStep (host : Host) (e : Expr) (scope : Scope) : Exec Value := do
  match e with
  | .id name => return (← heap).identifier scope name
  | .str s => return .str s
  | .int i => return .int i
  | .float x => return .float x
  | .list items | .tuple items => list (← items.mapM (host.evaluate · scope))
  | .dict entries =>
    let made ← dict
    for (k, v) in entries do
      let key ← host.evaluate k scope
      let value ← host.evaluate v scope
      modifyHeap (·.setItem made key value)
    return made
  | .attr target member =>
    match e.resolvable? with
    | some path => host.resolvePath path scope
    | none => return (← attribute? (← host.evaluate target scope) member).getD .none
  | .subscript target index => host.subscript target index scope
  | .call target unevaluated => host.callExpression target unevaluated scope

end Host

end ModelGraph
