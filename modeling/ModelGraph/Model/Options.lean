import ModelGraph.Machine.Error
import ModelGraph.Tensor.Basic
import ModelGraph.Toml.Reader
import ModelGraph.Toml.Writer

/-!
# Load options

How a model is opened. Options are kept in TOML documents; a key that is missing has its default, and
other keys are passed over.
-/

namespace ModelGraph

structure LoadOptions where
  /-- How many elements of a tensor a preview shows. -/
  previewLimit : Nat := Tensor.defaultLimit
  /-- The document of the catalog, in place of the standard one. -/
  catalogPath? : Option String := none
  /-- Whether the code of scripted modules is traced. -/
  trace : Bool := true
  /-- Packages whose unknown names are reported. -/
  reportedPackages : List String := Diagnostics.defaultPackages
  deriving DecidableEq, Inhabited

/-- Why options were not read. -/
inductive OptionsFault where
  /-- The document at the path was not read, for the given reason. -/
  | unreadable (path reason : String)
  | malformed
  deriving DecidableEq, Inhabited

def OptionsFault.message : OptionsFault → String
  | .unreadable path reason => "cannot read config '" ++ path ++ "': " ++ reason
  | .malformed => "TOML parse error: malformed document"

namespace LoadOptions

open Toml

def size? : Toml.Value → Option Nat
  | .int i => sizeOfInt64? i
  | _ => none

def text? : Toml.Value → Option String
  | .string s => some s
  | _ => none

def truth? : Toml.Value → Option Bool
  | .bool b => some b
  | _ => none

def texts? : Toml.Value → Option (List String)
  | .array items => items.mapM text?
  | _ => none

/-- Reads a member, which must have the right type if it is there. -/
def member? {α : Type} (ms : Members) (key : String) (absent : α) (read : Toml.Value → Option α) :
    Option α :=
  match ms.get? key with
  | some value => read value
  | none => some absent

/-- Reads options from the members of a document. -/
def ofMembers? (ms : Members) : Option LoadOptions := do
  return {
    previewLimit := ← member? ms "preview_limit" Tensor.defaultLimit size?
    catalogPath? := ← member? ms "metadata_path" none fun v => (text? v).map some
    trace := ← member? ms "trace" true truth?
    reportedPackages :=
      ← member? ms "report_unknown_packages" Diagnostics.defaultPackages texts? }

/-- Reads options from the text of a document. -/
def ofToml (text : String) : Except OptionsFault LoadOptions :=
  match (Toml.parse? text).bind ofMembers? with
  | some options => .ok options
  | none => .error .malformed

/-- Writes options as a document. -/
def toml (o : LoadOptions) : String :=
  writeMember "preview_limit" (toString o.previewLimit) ++
    ((o.catalogPath?.map fun path => writeMember "metadata_path" (writeString path)).getD "") ++
    writeMember "trace" (if o.trace then "true" else "false") ++
    writeMember "report_unknown_packages" (writeArray (o.reportedPackages.map writeString))

/-- Diagnostics that report what the options ask for. -/
def diagnostics (o : LoadOptions) : Diagnostics := { packages := o.reportedPackages }

end LoadOptions

end ModelGraph
