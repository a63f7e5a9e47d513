import ModelGraph.Object.Heap

/-!
# Scopes

A scope is a list of heap objects whose fields are its variables: the innermost first, then those
around it. A name is looked up in the first that has it and bound in the innermost. A dotted name
goes on from there through attributes.
-/

namespace ModelGraph

namespace Heap

/-- The variable that a name means. -/
def lookup? (h : Heap) (scope : Scope) (name : String) : Option Value :=
  scope.findSome? fun id => (h.fields? id).bind (·.get? name)

/-- Binds a name in the innermost object of a scope. -/
def assign (h : Heap) (scope : Scope) (name : String) (value : Value) : Heap :=
  match scope with
  | [] => h
  | id :: _ => h.modify id (·.mapFields (·.insert name value))

/-- Follows attributes; an absent value ends the way without result. -/
def follow? (h : Heap) (current : Value) : List String → Option Value
  | [] => if current.isNone then none else some current
  | name :: rest =>
    if current.isNone then none else (h.attribute? current name).bind (h.follow? · rest)

/-- What a dotted name means: its first part is looked up, the others are attributes. -/
def resolve? (h : Heap) (scope : Scope) : List String → Option Value
  | [] => none
  | first :: rest => (h.lookup? scope first).bind (h.follow? · rest)

/-- The object under a name of another, with a new namespace put there if there is none. -/
def child (h : Heap) (parent : Value) (name : String) : Value × Heap :=
  match h.ownAttribute? parent name with
  | some (.ref id) => (.ref id, h)
  | _ =>
    let made := Value.ref h.size
    (made, (h.push (.namespace {})).setAttribute parent name made)

/-- Sets an attribute at the end of a path of names. -/
def bindPath (h : Heap) (target : Value) (path : List String) (value : Value) : Heap :=
  match path with
  | [] => h
  | [last] => h.setAttribute target last value
  | name :: rest =>
    let (next, h) := h.child target name
    h.bindPath next rest value

/-- Binds a dotted name in the innermost object of a scope. -/
def bind (h : Heap) (scope : Scope) (path : List String) (value : Value) : Heap :=
  match scope with
  | [] => h
  | id :: _ => h.bindPath (.ref id) path value

/-- Whether an object is a class, whose body is being run. -/
def isClassBody (h : Heap) (id : Nat) : Bool :=
  match h.get? id with
  | some (.class _) => true
  | _ => false

/-- Whether an object holds the globals of a package. -/
def isPackage (h : Heap) (id : Nat) : Bool :=
  match h.get? id with
  | some (.namespace n) => n.package?.isSome
  | _ => false

end Heap

end ModelGraph
