import ModelGraph.Cli.Run

/-!
# The program

Looks at the real disk for a run of the command line.
-/

namespace ModelGraph

/-- The reason behind an error of the system. -/
def FileFault.ofError : IO.Error → FileFault
  | .inappropriateType .. => .notDirectory
  | _ => .missing

/-- The files that entries of a directory stand for, by their paths after a stem. -/
partial def filesOf (stem : String) (entries : List IO.FS.DirEntry) :
    IO (List (String × Bytes)) := do
  let found ← entries.mapM fun entry => do
    let name := stem ++ entry.fileName
    if ← entry.path.isDir then filesOf (name ++ "/") (← entry.path.readDir).toList
    else return [(name, (← IO.FS.readBinFile entry.path).toList)]
  return found.flatten

/-- The disk of the system. -/
def systemDisk : Disk IO := fun path => do
  try
    let place ← IO.FS.realPath path
    if ← place.isDir then return .ok (.directory (← filesOf "" (← place.readDir).toList))
    else return .ok (.file (← IO.FS.readBinFile path).toList)
  catch e => return .error (.ofError e)

end ModelGraph

/-- Runs the command line. -/
def main (args : List String) : IO UInt32 := do
  let outcome ← ModelGraph.Cli.run ModelGraph.systemDisk args
  IO.print outcome.output
  IO.eprint outcome.errors
  return UInt32.ofNat outcome.exitCode
