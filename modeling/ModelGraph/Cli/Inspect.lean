import ModelGraph.Model.Basic
import ModelGraph.Nnapi.Model
import ModelGraph.Text.Basic

/-!
# Showing models

A summary of the checkpoint; for each graph a table of its nodes, and then the visible attributes and
the tensors of each node that has any. A serialized model is shown as its operands and operations, by
their numbers.
-/

namespace ModelGraph.Cli

def banner : List String := [
  "╔══════════════════════════════════════════════════════╗",
  "║            ckpt-inspect · Checkpoint Viewer           ║",
  "╚══════════════════════════════════════════════════════╝",
  ""]

/-- The lines about the checkpoint as a whole. -/
def summaryLines (path : String) (m : Model) : List String :=
  ["  File: " ++ path, "  Format: " ++ m.format] ++
    (if m.producer.isEmpty then [] else ["  Producer: " ++ m.producer]) ++
    ["  Graphs: " ++ toString m.graphs.length] ++
    m.diagnostics.map ("  warning: " ++ ·) ++ [""]

/-- A line with the values of a graph's slots, if there are any. -/
def slotLine (title : String) (slots : List Slot) : List String :=
  if slots.isEmpty then []
  else ["  " ++ title ++ ": " ++ ", ".intercalate ((argumentsOf slots).map (·.name))]

/-- A line of the node table. -/
def tableLine (index name type inputs outputs : String) : String :=
  "  " ++ " ".intercalate [Text.left 4 index, Text.left 28 name, Text.left 36 type,
    Text.right 6 inputs, Text.right 6 outputs]

def nodeLine (n : Node) (index : Nat) : String :=
  tableLine (toString index) (Text.shorten 28 n.name) (Text.shorten 36 n.baseType)
    (toString n.inputs.length) (toString n.outputs.length)

def attributeLine (a : Attribute) : String :=
  "      " ++ a.name ++ ": " ++ a.type.getD "?" ++ " = " ++ a.value.text

/-- A tensor under the name of its slot, with at most `limit?` elements. -/
def tensorLine (limit? : Option Nat) (name : String) (t : Tensor) : String :=
  let value := match limit? with
    | some limit => t.preview limit
    | none => t.value
  let shown := match value with
    | .ok v => v.text
    | .error e => "<" ++ e.message ++ ">"
  "      " ++ name ++ ": " ++ t.type.text ++ " = " ++ shown

/-- The visible attributes and the tensors of a node. -/
def detailLines (limit? : Option Nat) (n : Node) : List String :=
  (n.attributes.filter (·.visible)).map attributeLine ++
    n.inputs.flatMap fun s =>
      (s.arguments.filterMap (·.initializer?)).map (tensorLine limit? s.name)

/-- A node with its details; nothing for a node without. -/
def nodeLines (limit? : Option Nat) (n : Node) : List String :=
  match detailLines limit? n with
  | [] => []
  | details => ("  " ++ n.text) :: details

def graphLines (limit? : Option Nat) (g : Graph) : List String :=
  ["  ── " ++ g.summary ++ " ──"] ++ slotLine "Inputs" g.inputs ++
    slotLine "Outputs" g.outputs ++
    ["", tableLine "Idx" "Name" "Type" "#In" "#Out",
      "  " ++ String.ofList (List.replicate 84 '-')] ++
    g.nodes.zipIdx.map (fun (n, i) => nodeLine n i) ++ [""] ++
    g.nodes.flatMap (nodeLines limit?) ++ [""]

/-- Lines with their ends. -/
def unlines (lines : List String) : String := String.join (lines.map (· ++ "\n"))

/-- The text that shows a model. -/
def modelText (path : String) (limit? : Option Nat) (m : Model) : String :=
  unlines (banner ++ summaryLines path m ++ m.graphs.flatMap (graphLines limit?))

/-- Operands by their numbers. -/
def operandNumbers (indices : List Nat) : String :=
  ", ".intercalate (indices.map fun i => "#" ++ toString i)

def operandLine (o : Nnapi.Operand) (index : Nat) : String :=
  "   #" ++ Text.left 4 (toString index) ++ " " ++ o.text ++ "\n"

def operationLine (o : Nnapi.Operation) (index : Nat) : String :=
  "   " ++ Text.left 5 (toString index) ++ " " ++ Text.left 24 o.type.text ++ " (" ++
    operandNumbers o.inputs ++ ") -> (" ++ operandNumbers o.outputs ++ ")\n"

/-- The text that shows a serialized model. -/
def serializedText (m : Nnapi.Model) : String :=
  "  NNAPI model v" ++ toString m.version.toInt ++ "\n  Inputs: " ++ operandNumbers m.inputs ++
    "\n  Outputs: " ++ operandNumbers m.outputs ++ "\n\n  Operands (" ++
    toString m.operands.length ++ "):\n" ++
    String.join (m.operands.zipIdx.map fun (o, i) => operandLine o i) ++ "\n  Operations (" ++
    toString m.operations.length ++ "):\n" ++
    String.join (m.operations.zipIdx.map fun (o, i) => operationLine o i)

end ModelGraph.Cli
