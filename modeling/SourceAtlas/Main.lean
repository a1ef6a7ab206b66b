import SourceAtlas.Command.Run
import SourceAtlas.Disk.Changes

/-!
# The command line

The files that a command can reach are read into a `Disk`, the command is run on it, and what it
changed is written back.
-/

namespace SourceAtlas.CommandLine

open Text

/-- The names on the way to an absolute path. -/
def placeOf (path : String) : List (List Char) :=
  (path.toList.splitOn '/').filter fun name => !name.isEmpty

/-- The absolute path that a path leads to. -/
def realPath? (path : String) : IO (Option String) := do
  try
    return some (← IO.FS.realPath path).toString
  catch _ => return none

/-- The tree at an entry of a directory. -/
partial def readTree (entry : IO.FS.DirEntry) : IO FileTree := do
  let path := entry.path
  match (← path.symlinkMetadata).type with
  | .dir =>
    let mut entries := []
    for child in ← path.readDir do
      try
        entries := FileTree.putEntry child.fileName.toList (← readTree child) entries
      catch _ => pure ()
    return .directory entries
  | .symlink => return .link ((← realPath? path.toString).getD "").toList
  | _ => return .file (← IO.FS.readBinFile path)

/-- The disk with what is at a path, if there is something. -/
def mount (disk : Disk) (path : String) : IO Disk := do
  match ← realPath? path with
  | none => return disk
  | some real =>
    if (disk.root.get? (placeOf real)).isSome then return disk
    try
      return disk.putAt (placeOf real) (← readTree { root := real, fileName := "." })
    catch _ =>
      try
        return disk.putAt (placeOf real) (.file (← IO.FS.readBinFile real))
      catch _ => return disk

/-- The paths that a command names. -/
def pathsOf : Command → List (List Char)
  | .analyze options => options.path :: options.config.toList ++ options.output.toList
  | .graph options =>
    options.path :: options.config.toList ++ options.source.toList ++ options.output.toList
  | .init options => [options.output]

/-- The disk that a command works on. -/
def diskFor (command : Command) : IO Disk := do
  let working := (← IO.currentDir).toString
  let mut disk : Disk := { workingDirectory := placeOf working }
  for path in working :: (pathsOf command).map String.ofList do
    disk ← mount disk path
  return disk

/-- Makes what a command changed. -/
def apply : Change → IO Unit
  | .directory place => IO.FS.createDirAll (String.ofList (Disk.absolutePath place))
  | .file place content => IO.FS.writeBinFile (String.ofList (Disk.absolutePath place)) content

/-- Runs a command. -/
def execute (command : Command) : IO UInt32 := do
  let disk ← diskFor command
  let (outcome, session) := command.run { disk }
  (disk.changes session.disk).forM apply
  IO.print session.stdout
  IO.eprint session.stderr
  match outcome with
  | .ok code => return code.toUInt32
  | .error error =>
    IO.eprintln ("Error: " ++ error.message)
    return Command.refusal.toUInt32

end SourceAtlas.CommandLine

open SourceAtlas in
/-- Runs the command that the arguments ask for. -/
def main (arguments : List String) : IO UInt32 := do
  match Invocation.parse (arguments.map String.toList) with
  | .ok invocation => CommandLine.execute invocation.command
  | .error error =>
    if error.exitCode = 0 then IO.println error.message else IO.eprintln error.message
    return error.exitCode.toUInt32
