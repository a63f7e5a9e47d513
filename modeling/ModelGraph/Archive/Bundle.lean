import ModelGraph.Archive.Manifest
import ModelGraph.Archive.Storages

/-!
# Bundles

All entries lie below one directory. Either `data.pkl` is the pickled root, whose storages are entries
of their own, or `model.json` describes the tree of modules. Bundles with code also hold constants and
code files.
-/

namespace ModelGraph

structure Bundle where
  /-- The directory of the entries, with its slash. -/
  directory : String
  format : String
  producer? : Option String := none
  manifest? : Option Manifest := none
  deriving Inhabited

namespace Bundle

/-- The release that wrote a version number. -/
def release? (declared : String) : Option String :=
  match (int64Numeral? 10 declared.toList).map Int64.toInt with
  | some 1 => some "v1.3"
  | some 2 => some "v1.5"
  | some 3 | some 4 => some "v1.6"
  | some 5 => some "v1.7"
  | _ => none

/-- The text before which a name has another. -/
def afterDirectory? (directory name : String) : Option String :=
  if directory.toList.isPrefixOf name.toList then
    some (String.ofList (name.toList.drop directory.length))
  else none

/-- The code files of a source, by their paths below the code directory. -/
def codeFiles (s : Source) (directory : String) : List (String × String) :=
  s.entries.filterMap fun (name, data) =>
    ((afterDirectory? (directory ++ "code/") name).filter (·.endsWith ".py")).map fun path =>
      (path, Text.utf8Lossy data)

/-- The label of a bundle without manifest, and what is to be reported about it. -/
def versionLabel (s : Source) (directory : String) : String × Option String :=
  let name := if (s.entry? (directory ++ "constants.pkl")).isSome then "TorchScript" else "PyTorch"
  match s.entry? (directory ++ "version") with
  | none => (name, none)
  | some data =>
    let line := Text.firstLine (Text.utf8Lossy data).toList
    let declared := String.ofList (Text.trim line)
    match release? declared with
    | some release => (name ++ " " ++ release, none)
    | none =>
      (name ++ " v-" ++ declared, some ("Unsupported PyTorch Zip version '" ++ declared ++ "'."))

/-- Opens a bundle: reads its manifest and label, and adds its code files to the machine. -/
def openIn (s : Source) (directory : String) (machine : Machine) :
    Except LoadError (Bundle × Machine) := do
  let manifest? ← match s.entry? (directory ++ "model.json") with
    | some data => some <$> Manifest.ofBytes data
    | none => pure none
  let (format, message?) := match manifest? with
    | some _ =>
      let hasAttributes := (s.entry? (directory ++ "attributes.pkl")).isSome
      (if hasAttributes then "TorchScript v1.1" else "TorchScript v1.0", none)
    | none => versionLabel s directory
  let machine := match message? with
    | some message => machine.withDiagnostics (machine.diagnostics.report message)
    | none => machine
  let machine := (codeFiles s directory).foldl (fun m file => m.addSource file.1 file.2) machine
  return ({ directory, format, producer? := manifest?.bind Manifest.producer?, manifest? }, machine)

open Restore

/-- The storages of one pickle, by key. -/
abbrev Table := OrderedMap String Value

/-- Resolves a persistent id by reading the storage of its key; each key is read once. -/
def resolve (s : Source) (base : String) (id : Value) : Restore Table Value := do
  match ← items id with
  | kind :: type :: key :: _ :: size :: _ =>
    if kind ≠ .str "storage" then throw (.format (.persistentKind (← describe kind)))
    let key ← ofExcept (keyText key)
    match (← get).table.get? key with
    | some v => return v
    | none =>
      let made ← newStorage type (← ofExcept (declaredCount size))
      fillStorage made (← ofExcept (s.entry (base ++ key)))
      modify fun w => { w with table := w.table.insert key made }
      return made
  | _ => throw (.format (.persistentKind (← describe id)))

/-- Loads a pickle whose storages are entries of a directory. -/
def unpickle (s : Source) (base : String) (data : Bytes) : Restore Unit Value :=
  withTable ({} : Table) (Pickle.loadFrom (resolve s base) data)

/-- Gives a constant its name in graphs. -/
def nameConstant (h : Heap) (v : Value) (name : String) : Heap :=
  match v with
  | .ref id => if h.isTensor v then h.modifyTag id fun t => { t with name? := some name } else h
  | _ => h

/-- Binds the constants as the attributes `c0`, `c1`, … of `CONSTANTS`. -/
def bindConstants (constants : List Value) : Restore Unit Unit := do
  let scope ← exec (Exec.alloc (.namespace {}))
  for (v, i) in constants.zipIdx do
    let name := "c" ++ toString i
    modifyHeap fun h => (nameConstant h v ("CONSTANTS." ++ name)).setAttribute scope name v
  exec (Exec.bindGlobal "CONSTANTS" scope)

/-- Makes a tensor of the manifest. -/
def buildTensor (s : Source) (directory : String) (t : ManifestTensor) : Restore Unit Value := do
  let type ← ofExcept t.typePrefix
  let data ← ofExcept (s.entry (directory ++ t.key))
  let width := ((ElementType.ofStorageName? (type ++ "Storage")).map (·.width)).getD 1
  let storage ← newStorage (.str ("torch." ++ type ++ "Storage")) (data.length / width)
  fillStorage storage data
  let made ← exec (Exec.invoke ("torch." ++ type ++ "Tensor") [])
  let dims ← exec (Exec.list (t.dims.map Value.ofSize))
  let strides ← exec (Exec.list (t.strides.map Value.ofSize))
  let state ← exec (Exec.list [storage, .ofSize t.offset, dims, strides])
  exec (Exec.setState made state)
  return made

/-- Sets attributes to items of a table. -/
def setItems (target : Value) (what : String) (table : List Value) (entries : List ManifestItem) :
    Restore Unit Unit := do
  for e in entries do
    match table[e.index]? with
    | some v => exec (Exec.setAttribute target e.name v)
    | none => throw (.unresolved (what ++ " " ++ toString e.index))

def newModule : Restore Unit Value := exec (Exec.record "torch.nn.modules.module" "Module")

/-- Gives a module its tensors, attributes and submodules; the submodules with their descriptions. -/
def buildModule (tensors attributes : List Value) (m : ManifestModule) (target : Value) :
    Restore Unit (List (ManifestModule × Value)) := do
  setItems target "tensor" tensors (m.parameters ++ m.arguments)
  setItems target "attribute" attributes m.attributes
  m.submodules.mapM fun s => do
    let child ← newModule
    exec (Exec.setAttribute target s.name child)
    return (s, child)

/-- Builds the modules of one level after another; the code entries of all of them. -/
def buildLevels (tensors attributes : List Value) :
    (levels : Nat) → List (ManifestModule × Value) → Restore Unit (List (Value × String))
  | 0, _ => return []
  | levels + 1, modules => do
    let code := modules.filterMap fun (m, target) => m.code?.map fun key => (target, key)
    let children ← modules.mapM fun (m, target) => buildModule tensors attributes m target
    return code ++ (← buildLevels tensors attributes levels children.flatten)

/-- Builds the tree of modules that a manifest describes; the root and the code entries. -/
def buildModules (s : Source) (directory : String) (m : Manifest) :
    Restore Unit (Value × List (Value × String)) := do
  let tensors ← m.tensors.mapM (buildTensor s directory)
  let attributes ← match s.entry? (directory ++ "attributes.pkl") with
    | some data => do items (← Pickle.loadFrom Pickle.refuse data)
    | none => pure []
  let root ← newModule
  return (root, ← buildLevels tensors attributes m.mainModule.height [(m.mainModule, root)])

/-- Loads a bundle. -/
def read (b : Bundle) (s : Source) : Restore Unit Loaded := do
  let name (entry : String) := b.directory ++ entry
  if let some data := s.entry? (name "constants.pkl") then
    bindConstants (← items (← unpickle s (name "constants/") data))
  let (root, codeEntries) ← match s.entry? (name "data.pkl"), b.manifest? with
    | some data, _ => do pure (← unpickle s (name "data/") data, [])
    | none, some m => buildModules s b.directory m
    | none, none => throw (.missingEntry (name "data.pkl"))
  let content ←
    if b.format.startsWith "TorchScript" then pure (.script root)
    else ofExcept ((← heap).classify root)
  return { content, codeEntries }

end Bundle

end ModelGraph
