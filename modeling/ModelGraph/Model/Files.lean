import ModelGraph.Disk
import ModelGraph.Model.Basic
import ModelGraph.Operator.Standard

/-!
# Files of models

Options, catalogs and checkpoints on a disk. A checkpoint is one file, or a directory with the files
of an unpacked archive.
-/

namespace ModelGraph

variable {m : Type → Type} [Monad m]

/-- Reads options from a document on a disk. -/
def LoadOptions.ofFile (disk : Disk m) (path : String) : m (Except ModelError LoadOptions) := do
  match ← disk.text path with
  | .ok text => return (LoadOptions.ofToml text).mapError .options
  | .error fault => return .error (.options (.unreadable path fault.message))

/-- The catalog that the options name, or the standard one. -/
def LoadOptions.catalog (disk : Disk m) (o : LoadOptions) :
    m (Except ModelError Operator.Catalog) := do
  match o.catalogPath? with
  | none => return .ok .standard
  | some path =>
    match ← disk.text path with
    | .ok text => return (Operator.Catalog.ofDocument text).mapError .catalog
    | .error fault => return .error (.catalog (.unreadable fault.message))

/-- The source that a file or directory is. -/
def Source.ofContent : FileContent → Source
  | .file data => .ofStream data
  | .directory files => .ofEntries files

/-- Opens a source as a model, with the catalog that the options name. -/
def Model.open (disk : Disk m) (source : Source) (o : LoadOptions) :
    m (Except ModelError Model) := do
  match ← o.catalog disk with
  | .ok catalog => return Model.ofSource source catalog o
  | .error error => return .error error

end ModelGraph
