import ModelGraph.Nnapi.Decode
import ModelGraph.Script.Syntax
import ModelGraph.Script.Token

/-!
# Errors of running scripts

Every cause has a constructor; `RunError.message` holds the wording. Where a message names a value,
the cause carries the value's description.

Problems that do not stop a load become diagnostics. An unknown name is reported once, and only if it
lies under one of the reported packages; names of other packages belong to the model.
-/

namespace ModelGraph

/-- What scripts may not do here although it is well formed. -/
inductive Unsupported where
  | condition (found : String)
  | forLoop
  | forIterable (found : String)
  | whileLoop
  | functionScope
  | unpacking (found : String) (targets : Nat)
  | assignmentTarget
  | subscript (found : String)
  | member (name found : String)
  | function (name : String)
  | rangeArguments
  | rangeStep
  | sliceStep
  | container
  | identity
  | truth (found : String)
  | negation (found : String)
  | comparison (left right : String)
  | operands (left right : String)
  | arrayType (code : String)
  | arrayTypeState (length : Nat)
  | arrayState (length : Nat)
  | scalarType (name : String)
  | forwardMissing
  | forwardNotScript
  | undeclaredParameter (name : String)
  | parameterType (type name : String)
  | packedType (name : String)
  | compilationNotInitialized
  deriving DecidableEq, Inhabited

def Unsupported.message : Unsupported → String
  | .condition found => "unknown condition " ++ found
  | .forLoop => "unsupported for loop"
  | .forIterable found => "unsupported for iterable " ++ found
  | .whileLoop => "unsupported while loop"
  | .functionScope => "invalid function scope"
  | .unpacking found targets =>
    "cannot unpack " ++ found ++ " into " ++ toString targets ++ " targets"
  | .assignmentTarget => "unsupported assignment target"
  | .subscript found => "unsupported subscript of " ++ found
  | .member name found => "unsupported function '" ++ name ++ "' of " ++ found
  | .function name => "unsupported function '" ++ name ++ "'"
  | .rangeArguments => "unsupported range arguments"
  | .rangeStep => "range step must not be zero"
  | .sliceStep => "slice step must be 1"
  | .container => "unsupported 'in' container"
  | .identity => "'is' on primitive values"
  | .truth found => "boolean expression expected, found " ++ found
  | .negation found => "cannot negate " ++ found
  | .comparison left right => "cannot compare " ++ left ++ " and " ++ right
  | .operands left right => "unsupported operands " ++ left ++ " and " ++ right
  | .arrayType code => "unknown dtype '" ++ code ++ "'"
  | .arrayTypeState length => "unknown numpy.dtype setstate length '" ++ toString length ++ "'"
  | .arrayState length => "unknown numpy array setstate length '" ++ toString length ++ "'"
  | .scalarType name => "unsupported scalar type '" ++ name ++ "'"
  | .forwardMissing => "module 'forward' not implemented"
  | .forwardNotScript => "module 'forward' is not script code"
  | .undeclaredParameter name => "unknown type of parameter '" ++ name ++ "'"
  | .parameterType type name => "unknown type '" ++ type ++ "' of parameter '" ++ name ++ "'"
  | .packedType name => "unsupported type '" ++ name ++ "'"
  | .compilationNotInitialized => "NNAPI compilation run before init"

/-- Uses of a value of the wrong kind. -/
inductive TypeFault where
  | notCallable (found : String)
  | notFunction
  | notClass
  | undefined (name : String)
  | itemAssignment (found : String)
  | attributeAssignment (name found : String)
  | attributeName
  | reconstruction (found : String)
  | scalarWithoutData
  | truncatedScalar
  | arrayDataSize
  | storageExpected (found : String)
  | appendToNonList
  | divisionByZero
  | moduloByZero
  | modelWithoutData
  deriving DecidableEq, Inhabited

def TypeFault.message : TypeFault → String
  | .notCallable found => found ++ " is not callable"
  | .notFunction => "call of a non-function value"
  | .notClass => "construct of a non-class value"
  | .undefined name => "'" ++ name ++ "' is not defined"
  | .itemAssignment found => "cannot assign item of " ++ found
  | .attributeAssignment name found => "cannot set attribute '" ++ name ++ "' of " ++ found
  | .attributeName => "getattr name must be a string"
  | .reconstruction found => "cannot reconstruct " ++ found
  | .scalarWithoutData => "numpy scalar without data"
  | .truncatedScalar => "truncated numpy scalar"
  | .arrayDataSize => "invalid string array data size"
  | .storageExpected found => "tensor storage expected, found " ++ found
  | .appendToNonList => "append to a non-list value"
  | .divisionByZero => "integer division by zero"
  | .moduloByZero => "integer modulo by zero"
  | .modelWithoutData => "serialized model tensor has no storage data"

inductive RunError where
  | unsupported (part : Unsupported)
  | parse (file : String) (error : Script.SyntaxError)
  | unresolvedModule (name : String)
  /-- The script itself raised an exception. -/
  | raised (message : String)
  | type (fault : TypeFault)
  | nnapi (error : Nnapi.DecodeError)
  /-- Calls nest deeper than the machine goes. -/
  | tooDeep
  deriving DecidableEq

def RunError.message : RunError → String
  | .unsupported part => "unsupported: " ++ part.message
  | .parse file error => file ++ ":" ++ toString error.line ++ ": " ++ error.fault.message
  | .unresolvedModule name => "failed to resolve module '" ++ name ++ "'"
  | .raised message => "script raised: " ++ message
  | .type fault => "type error: " ++ fault.message
  | .nnapi error => "NNAPI model: " ++ error.message
  | .tooDeep => "calls are nested too deeply"

structure Diagnostics where
  /-- First parts of the names worth reporting. -/
  packages : List String
  /-- The unknown names reported so far. -/
  reported : List String := []
  messages : List String := []
  deriving DecidableEq, Inhabited

namespace Diagnostics

def defaultPackages : List String :=
  ["__builtin__", "_codecs", "argparse", "collections", "numpy", "ops", "torch", "torchvision"]

def standard : Diagnostics := { packages := defaultPackages }

/-- Whether a name lies under a reported package. -/
def isReported (d : Diagnostics) (name : String) : Bool :=
  d.packages.contains ((Script.dotParts name).headD name)

def report (d : Diagnostics) (message : String) : Diagnostics :=
  { d with messages := d.messages ++ [message] }

/-- Whether reporting the name as unknown adds a message. -/
def isNews (d : Diagnostics) (name : String) : Bool :=
  d.isReported name && !d.reported.contains name

/-- Reports an unknown name. -/
def unknownName (d : Diagnostics) (name : String) : Diagnostics :=
  if d.isNews name then
    { d with reported := name :: d.reported }.report ("Unknown type name '" ++ name ++ "'.")
  else d

end Diagnostics

end ModelGraph
