import ModelGraph.Machine.Error
import ModelGraph.Number.Word

/-!
# Errors of loading

Every cause has a constructor; `LoadError.message` holds the wording.
-/

namespace ModelGraph

/-- What is wrong with a pickle. -/
inductive PickleFault where
  | endOfData (length : Nat)
  | unterminatedLine
  | emptyStop
  | stackUnderflow
  | tupleUnderflow
  | noMark
  | markBeyondStack
  | unknownMemo (index : Nat)
  | memoIndex (text : String)
  | integer (text : String)
  | float (text : String)
  | appendTarget
  | itemTarget (found : String)
  | argumentTuple
  | globalNames
  | noClass
  | opcode (byte : UInt8)
  deriving DecidableEq, Inhabited

/-- Two digits to base sixteen. -/
def hexByte (byte : UInt8) : String :=
  String.ofList [Nat.digitChar (byte.toNat / 16), Nat.digitChar (byte.toNat % 16)]

def PickleFault.message : PickleFault → String
  | .endOfData length => "unexpected end of data reading " ++ toString length ++ " bytes"
  | .unterminatedLine => "unterminated line"
  | .emptyStop => "STOP on empty stack"
  | .stackUnderflow => "stack underflow"
  | .tupleUnderflow => "tuple underflow"
  | .noMark => "mark not found"
  | .markBeyondStack => "mark beyond stack"
  | .unknownMemo index => "memo key " ++ toString index ++ " not found"
  | .memoIndex text => "invalid memo key '" ++ text ++ "'"
  | .integer text => "invalid integer '" ++ text ++ "'"
  | .float text => "invalid float '" ++ text ++ "'"
  | .appendTarget => "append to a non-list object"
  | .itemTarget found => "cannot set item on " ++ found
  | .argumentTuple => "argument tuple expected"
  | .globalNames => "STACK_GLOBAL expects strings"
  | .noClass => "OBJ without class"
  | .opcode byte => "unsupported opcode 0x" ++ hexByte byte

/-- What a checkpoint holds that no known layout has. -/
inductive FormatFault where
  | noContainer
  | storageType (found : String)
  | storageReference
  | persistentKind (found : String)
  | absentRoot
  | storageRecord
  | tensorRecord
  | negativeRank
  | count (what : String)
  | tensorType (name : String)
  deriving DecidableEq, Inhabited

def FormatFault.message : FormatFault → String
  | .noContainer => "no known checkpoint container signature"
  | .storageType found => "unsupported storage type " ++ found
  | .storageReference => "invalid storage reference"
  | .persistentKind found => "unsupported persistent load type " ++ found
  | .absentRoot => "root object is None"
  | .storageRecord => "invalid storage record"
  | .tensorRecord => "invalid tensor record"
  | .negativeRank => "negative tensor rank"
  | .count what => "invalid " ++ what ++ " count"
  | .tensorType name => "unsupported tensor data type '" ++ name ++ "'"

/-- Declarations that do not fit the layout or each other. -/
inductive ProtocolFault where
  | magic
  | version (found : String)
  | typeSize (name : String) (size : Int64)
  | storageSize (size : Int64)
  | storageTooLarge (size : Nat)
  | storageLength (key : String) (declared actual : Nat)
  deriving DecidableEq, Inhabited

def ProtocolFault.message : ProtocolFault → String
  | .magic => "invalid magic number"
  | .version found => "unsupported protocol version " ++ found
  | .typeSize name size =>
    "unsupported type size '" ++ name ++ "' of " ++ toString size.toInt ++ " bytes"
  | .storageSize size => "invalid storage size " ++ toString size.toInt
  | .storageTooLarge size =>
    "storage of " ++ toString size ++ " elements exceeds the addressable size"
  | .storageLength key declared actual =>
    "storage '" ++ key ++ "' declares " ++ toString declared ++ " elements but holds " ++
      toString actual

inductive LoadError where
  | format (fault : FormatFault)
  | protocol (fault : ProtocolFault)
  /-- A reference to something that was never declared. -/
  | unresolved (reference : String)
  /-- The root is neither a module nor weights. -/
  | unclassifiable
  | pickle (offset : Nat) (fault : PickleFault)
  | missingEntry (name : String)
  | manifest
  | run (error : RunError)
  deriving DecidableEq

def LoadError.message : LoadError → String
  | .format fault => "unsupported format: " ++ fault.message
  | .protocol fault => "protocol mismatch: " ++ fault.message
  | .unresolved reference => "unresolved reference '" ++ reference ++ "'"
  | .unclassifiable => "file does not contain root module or state dictionary"
  | .pickle offset fault =>
    "pickle error at offset " ++ toString offset ++ ": " ++ fault.message
  | .missingEntry name => "missing archive entry '" ++ name ++ "'"
  | .manifest => "failed to parse manifest: malformed document"
  | .run error => error.message

end ModelGraph
