import ModelGraph.Text.Utf8

/-!
# Disks

What a program sees of a disk: a path leads to a file, to a directory with all files below it, or
nowhere. `Files.disk` is a disk that holds given files and nothing else.
-/

namespace ModelGraph

/-- Why a path was not read. -/
inductive FileFault where
  | missing
  /-- The path goes on after a file. -/
  | notDirectory
  | isDirectory
  | notText
  deriving DecidableEq, Inhabited

def FileFault.message : FileFault → String
  | .missing => "No such file or directory (os error 2)"
  | .notDirectory => "Not a directory (os error 20)"
  | .isDirectory => "Is a directory (os error 21)"
  | .notText => "stream did not contain valid UTF-8"

/-- What a path leads to. -/
inductive FileContent where
  | file (data : Bytes)
  /-- The files below a directory, by their paths from there. -/
  | directory (files : List (String × Bytes))
  deriving DecidableEq, Inhabited

/-- A disk that is looked at by actions of a monad. -/
abbrev Disk (m : Type → Type) := String → m (Except FileFault FileContent)

namespace Disk

variable {m : Type → Type} [Monad m]

/-- The bytes of a file. -/
def file (disk : Disk m) (path : String) : m (Except FileFault Bytes) := do
  match ← disk path with
  | .ok (.file data) => return .ok data
  | .ok (.directory _) => return .error .isDirectory
  | .error fault => return .error fault

/-- The text of a file. -/
def text (disk : Disk m) (path : String) : m (Except FileFault String) := do
  match ← disk.file path with
  | .ok data =>
    match Text.utf8? data with
    | some text => return .ok text
    | none => return .error .notText
  | .error fault => return .error fault

end Disk

/-- Files by the parts of their paths. -/
abbrev Files := List (List String × Bytes)

namespace Files

/-- The names that a path is made of. -/
def pathParts (path : String) : List String := path.splitOn "/"

def ofPaths (files : List (String × Bytes)) : Files :=
  files.map fun (path, data) => ((pathParts path).filter fun part => part != "" && part != ".", data)

/-- The file at a place; of several the last one. -/
def fileAt? (files : Files) (place : List String) : Option Bytes := files.reverse.lookup place

/-- The files below a place, by their paths from there. -/
def below (files : Files) (place : List String) : Files :=
  files.filterMap fun (parts, data) =>
    if place.isPrefixOf parts ∧ place.length < parts.length then
      some (parts.drop place.length, data)
    else none

def isDirectory (files : Files) (place : List String) : Bool :=
  place.isEmpty || !(files.below place).isEmpty

/-- Follows the rest of a path from a place. -/
def follow (files : Files) (place : List String) : List String → Except FileFault (List String)
  | [] => .ok place
  | part :: rest =>
    if !files.isDirectory place then
      .error (if (files.fileAt? place).isSome then .notDirectory else .missing)
    else if part = "" ∨ part = "." then files.follow place rest
    else if part = ".." then
      if place.isEmpty then .error .missing else files.follow place.dropLast rest
    else files.follow (place ++ [part]) rest

/-- What a path leads to from the directory that holds the files. -/
def content (files : Files) (path : String) : Except FileFault FileContent :=
  if path.startsWith "/" || path.isEmpty then .error .missing
  else do
    let place ← files.follow [] (pathParts path)
    match files.fileAt? place with
    | some data => return .file data
    | none =>
      if files.isDirectory place then
        return .directory ((files.below place).map fun f => ("/".intercalate f.1, f.2))
      else throw .missing

/-- The disk that holds the files and nothing else. -/
def disk (files : Files) : Disk Id := files.content

end Files

end ModelGraph
