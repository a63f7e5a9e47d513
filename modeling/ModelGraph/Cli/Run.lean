import ModelGraph.Cli.Arguments
import ModelGraph.Cli.Inspect
import ModelGraph.Json.Printer
import ModelGraph.Model.Files

/-!
# Running a command

A run looks at a disk and gives the texts for both outputs. A command that fails says what it tried,
and then why, each cause with its own.
-/

namespace ModelGraph.Cli

structure Outcome where
  exitCode : Nat := 0
  output : String := ""
  errors : String := ""
  deriving DecidableEq, Inhabited

/-- What failed, and the causes behind it, the nearest one first. -/
structure Failure where
  attempt : String
  causes : List String
  deriving DecidableEq, Inhabited

namespace Failure

/-- A text with its later lines indented. -/
def indented (indent : String) (text : String) : String :=
  ("\n" ++ indent).intercalate (text.splitOn "\n")

/-- The causes, numbered if there are several. -/
def causeLines : List String → String
  | [] => ""
  | [cause] => "\n\nCaused by:\n    " ++ indented "    " cause
  | causes =>
    "\n\nCaused by:" ++ String.join (causes.zipIdx.map fun (cause, i) =>
      "\n" ++ Text.right 5 (toString i) ++ ": " ++ indented "       " cause)

def report (f : Failure) : String := "Error: " ++ f.attempt ++ causeLines f.causes ++ "\n"

/-- An error of opening a model with its causes. -/
def ofModel (attempt : String) (error : ModelError) : Failure :=
  ⟨attempt, error.message :: error.causes⟩

end Failure

/-- An action on a disk that may fail. -/
abbrev Job (m : Type → Type) (α : Type) := ExceptT Failure m α

variable {m : Type → Type} [Monad m]

/-- Runs an action, with its errors as failures. -/
def attempt {ε α : Type} (failure : ε → Failure) (action : m (Except ε α)) : Job m α := do
  match ← action with
  | .ok a => return a
  | .error error => throw (failure error)

/-- The load options that an invocation asks for. -/
def options (disk : Disk m) (i : Invocation) : Job m LoadOptions := do
  let o ← match i.config? with
    | none => pure {}
    | some path =>
      attempt (.ofModel ("failed to load config '" ++ path ++ "'")) (LoadOptions.ofFile disk path)
  return { o with catalogPath? := i.metadata?.or o.catalogPath? }

def inspect (disk : Disk m) (path : String) (json full : Bool) (o : LoadOptions) :
    Job m String := do
  let opening := "failed to open checkpoint '" ++ path ++ "'"
  let content ← attempt
    (fun fault => ⟨opening, ["cannot access '" ++ path ++ "'", fault.message]⟩) (disk path)
  let model ← attempt (.ofModel opening) (Model.open disk (.ofContent content) o)
  if json then return model.json.pretty ++ "\n"
  return modelText path (if full then none else some o.previewLimit) model

def nnapi (disk : Disk m) (path : String) (json : Bool) : Job m String := do
  let data ← attempt (fun fault => ⟨"cannot read '" ++ path ++ "'", [fault.message]⟩)
    (disk.file path)
  match Nnapi.Model.decode data with
  | .ok model => return if json then model.json.pretty ++ "\n" else serializedText model
  | .error error =>
    throw ⟨"failed to decode NNAPI model '" ++ path ++ "'", [error.message]⟩

/-- What a command prints. -/
def perform (disk : Disk m) (i : Invocation) : Job m String :=
  match i.command with
  | .inspect path json full => do inspect disk path json full (← options disk i)
  | .nnapi path json => nnapi disk path json

def usage : String :=
  "Usage: ckpt-inspect [-c CONFIG] [-m METADATA] [-v] inspect PATH [--json] [--full]\n" ++
    "       ckpt-inspect [-v] nnapi FILE [--json]\n"

/-- Runs the program. -/
def run (disk : Disk m) (args : List String) : m Outcome := do
  match Invocation.ofArguments? args with
  | none => return { exitCode := 2, errors := usage }
  | some i =>
    match ← (perform disk i).run with
    | .ok output => return { output }
    | .error failure => return { exitCode := 1, errors := failure.report }

end ModelGraph.Cli
