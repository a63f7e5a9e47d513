import ModelGraph.Archive.Error

/-!
# Sources

A checkpoint comes as named entries of an archive, or as one run of bytes. The layout is told by the
names of the entries or by the first bytes.
-/

namespace ModelGraph

structure Source where
  /-- The entries in the order of their names. -/
  entries : List (String × Bytes) := []
  stream? : Option Bytes := none
  deriving Inhabited

/-- The layout of a source. -/
inductive Layout where
  /-- A bundle of entries below a directory, whose name ends in a slash or is empty. -/
  | bundle (directory : String)
  /-- Several pickles and raw storages in one run of bytes. -/
  | stream
  /-- The entries of the first releases. -/
  | tar
  deriving DecidableEq, Inhabited

namespace Source

/-- Puts an entry into a list in the order of names, in place of one of the same name. -/
def insertEntry (name : String) (data : Bytes) :
    List (String × Bytes) → List (String × Bytes)
  | [] => [(name, data)]
  | e :: rest =>
    if name < e.1 then (name, data) :: e :: rest
    else if name = e.1 then (name, data) :: rest
    else e :: insertEntry name data rest

/-- Adds an entry, in place of one of the same name. -/
def insert (s : Source) (name : String) (data : Bytes) : Source :=
  { s with entries := insertEntry name data s.entries }

def ofEntries (entries : List (String × Bytes)) : Source :=
  entries.foldl (fun s e => s.insert e.1 e.2) {}

def ofStream (data : Bytes) : Source := { stream? := some data }

def entry? (s : Source) (name : String) : Option Bytes := s.entries.lookup name

/-- An entry that has to be there. -/
def entry (s : Source) (name : String) : Except LoadError Bytes :=
  match s.entry? name with
  | some data => .ok data
  | none => .error (.missingEntry name)

/-- Whether a name is that of a bundle's main entry. -/
def isMainEntry (name : String) : Bool :=
  name == "model.json" || name == "data.pkl" || name.endsWith "/model.json" ||
    name.endsWith "/data.pkl"

/-- The directory of a name, with its slash. -/
def directory (name : String) : String :=
  String.ofList (name.toList.reverse.dropWhile (· != '/')).reverse

/-- The magic number that a stream begins with after its protocol. -/
def magic : Bytes := [0x8a, 0x0a, 0x6c, 0xfc, 0x9c, 0x46, 0xf9, 0x20, 0x6a, 0xa8, 0x50, 0x19]

/-- Whether bytes hold the magic number after the first two. -/
def hasMagic (data : Bytes) : Bool := (data.drop 2).take 12 == magic

/-- Whether bytes begin like a stream of pickles. -/
def isStream (data : Bytes) : Bool :=
  decide (data.length > 14) && data.head? == some 0x80 &&
    (data[1]?).any (fun b => decide (b < 0x10)) && hasMagic data

/-- The layout of a source, if it is known. -/
def layout (s : Source) : Except LoadError Layout :=
  match s.entries.find? (isMainEntry ·.1) with
  | some e => .ok (.bundle (directory e.1))
  | none =>
    if s.stream?.any isStream then .ok .stream
    else if (s.entry? "pickle").isSome then .ok .tar
    else .error (.format .noContainer)

end Source

end ModelGraph
