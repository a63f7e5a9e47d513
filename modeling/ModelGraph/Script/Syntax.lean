/-!
# Syntax of scripts

Expressions and statements. Operators have no nodes of their own: they stand as calls of functions.
-/

namespace ModelGraph.Script

inductive Expr where
  | id (name : String)
  | str (value : String)
  | int (value : Int64)
  | float (value : Float)
  | list (items : List Expr)
  | tuple (items : List Expr)
  | dict (entries : List (Expr × Expr))
  | attr (target : Expr) (member : String)
  | subscript (target : Expr) (index : List Expr)
  /-- A call; an argument may be named. -/
  | call (target : Expr) (arguments : List (Option String × Expr))
  deriving Inhabited

/-- Pieces of a text between dots. -/
def dotParts (s : String) : List String :=
  (s.toList.splitOn '.').map String.ofList

namespace Expr

/-- The attribute path of a dotted name. -/
def path (name : String) : Expr :=
  match dotParts name with
  | [] => .id name
  | first :: members => members.foldl .attr (.id first)

/-- A call of a function by its dotted name. -/
def callOf (callee : String) (arguments : List Expr) : Expr :=
  .call (path callee) (arguments.map (none, ·))

/-- The dotted name that a path of attributes spells. -/
def dottedName? : Expr → Option String
  | .id name => some name
  | .attr target member => target.dottedName?.map (· ++ "." ++ member)
  | _ => none

end Expr

structure ImportName where
  name : String
  localName? : Option String
  deriving DecidableEq, Inhabited

/-- The name that the import binds: the one given, else the first part. -/
def ImportName.binding (i : ImportName) : String :=
  i.localName?.getD ((dotParts i.name).headD i.name)

structure Parameter where
  name : String
  declaredType : Option Expr
  default : Option Expr
  deriving Inhabited

inductive Statement where
  | pass
  | return (value : Option Expr)
  | defineFunction (name : String) (parameters : List Parameter) (returns : Option Expr)
      (body : List Statement)
  | defineClass (name : String) (bases : List Expr) (body : List Statement)
  | declare (name : String) (declaredType : Option Expr)
  | assign (target value : Expr)
  | branch (condition : Expr) (thenBody elseBody : List Statement)
  | for (targets iterables : List Expr) (body : List Statement)
  | while (condition : Expr) (body : List Statement)
  | expr (value : Expr)
  | imports (names : List ImportName)
  | importsFrom (module : String) (names : List ImportName)
  deriving Inhabited

/-- A function as its definition gives it. -/
structure Function where
  name : String
  parameters : List Parameter
  returns : Option Expr
  body : List Statement
  deriving Inhabited

end ModelGraph.Script
