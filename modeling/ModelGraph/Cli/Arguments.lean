/-!
# Arguments of the command line

A command with its flags and one path. Options for all commands stand before or after the command;
two dashes end the options.
-/

namespace ModelGraph.Cli

inductive Command where
  /-- Shows the graphs of a checkpoint. -/
  | inspect (path : String) (json full : Bool)
  /-- Shows a serialized accelerator model. -/
  | nnapi (path : String) (json : Bool)
  deriving DecidableEq, Inhabited

structure Invocation where
  /-- The document of the load options. -/
  config? : Option String := none
  /-- The document of the catalog. -/
  metadata? : Option String := none
  command : Command
  deriving DecidableEq, Inhabited

/-- Options that take a value. -/
inductive ValueOption where
  | config
  | metadata
  deriving DecidableEq, Inhabited

/-- What has been read of the arguments. -/
structure Draft where
  config? : Option String := none
  metadata? : Option String := none
  /-- The option whose value comes next. -/
  pending? : Option ValueOption := none
  command? : Option String := none
  path? : Option String := none
  json : Bool := false
  full : Bool := false
  /-- Whether two dashes have ended the options. -/
  ended : Bool := false
  deriving DecidableEq, Inhabited

namespace Draft

/-- Takes the value of an option. -/
def take (d : Draft) (option : ValueOption) (value : String) : Option Draft :=
  if value.isEmpty then none
  else
    match option with
    | .config => some { d with pending? := none, config? := some value }
    | .metadata => some { d with pending? := none, metadata? := some value }

/-- Takes the command or its path. -/
def operand (d : Draft) (arg : String) : Option Draft :=
  match d.command?, d.path? with
  | none, _ =>
    if !d.ended && (arg == "inspect" || arg == "nnapi") then some { d with command? := some arg }
    else none
  | some _, none => if arg.isEmpty then none else some { d with path? := some arg }
  | some _, some _ => none

/-- Takes an option with a long name, perhaps with its value. -/
def long (d : Draft) (name : String) (value? : Option String) : Option Draft :=
  match name, value?, d.command? with
  | "config", some value, _ => d.take .config value
  | "config", none, _ => some { d with pending? := some .config }
  | "metadata", some value, _ => d.take .metadata value
  | "metadata", none, _ => some { d with pending? := some .metadata }
  | "verbose", none, _ => some d
  | "json", none, some _ => some { d with json := true }
  | "full", none, some "inspect" => some { d with full := true }
  | _, _, _ => none

/-- Takes an option of one letter, whose value may follow at once. -/
def short (d : Draft) (option : ValueOption) : List Char → Option Draft
  | [] => some { d with pending? := some option }
  | '=' :: value => d.take option (String.ofList value)
  | value => d.take option (String.ofList value)

/-- Takes options of one letter each. -/
def letters (d : Draft) : List Char → Option Draft
  | [] => some d
  | 'v' :: rest => d.letters rest
  | 'c' :: rest => d.short .config rest
  | 'm' :: rest => d.short .metadata rest
  | _ => none

/-- Takes the next argument. -/
def next (d : Draft) (arg : String) : Option Draft :=
  match d.pending?, d.ended, arg.toList with
  | some _, _, '-' :: _ :: _ => none
  | some option, _, _ => d.take option arg
  | none, false, ['-', '-'] => some { d with ended := true }
  | none, false, '-' :: '-' :: rest =>
    let value := rest.dropWhile (· != '=')
    d.long (String.ofList (rest.takeWhile (· != '=')))
      (if value.isEmpty then none else some (String.ofList value.tail))
  | none, false, '-' :: c :: rest => d.letters (c :: rest)
  | none, _, _ => d.operand arg

end Draft

/-- Reads the arguments; nothing if they are no invocation. -/
def Invocation.ofArguments? (args : List String) : Option Invocation := do
  let d ← args.foldlM Draft.next {}
  if d.pending?.isSome then none
  let path ← d.path?
  let command ← match d.command? with
    | some "inspect" => some (.inspect path d.json d.full)
    | some "nnapi" => some (.nnapi path d.json)
    | _ => none
  return { config? := d.config?, metadata? := d.metadata?, command }

end ModelGraph.Cli
