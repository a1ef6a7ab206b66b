import SourceAtlas.Command.Basic
import SourceAtlas.Command.Template
import SourceAtlas.Config.File
import SourceAtlas.Disk.Write
import SourceAtlas.Document.File
import SourceAtlas.Document.Yaml
import SourceAtlas.Graph.Json
import SourceAtlas.Project.Basic
import SourceAtlas.Report.Summary
import SourceAtlas.Text.Quoted

/-!
# Running commands

A command changes the disk and prints texts. It ends with an exit code or with a failure, and what
was done before a failure stays done.
-/

namespace SourceAtlas

open Text

/-- Why a command fails. -/
inductive CommandError where
  | inaccessible (path : List Char) (error : DiskError)
  | config (error : ConfigError)
  | analysis (error : AnalysisError)
  | document (error : DocumentError)
  | cannotCreate (path : List Char)
  | cannotWrite (path : List Char)
  | cannotWriteDocument (path : List Char)
  | disk (error : DiskError)
deriving Repr, DecidableEq, Inhabited

/-- The reason in words. -/
def CommandError.message : CommandError → String
  | inaccessible path error =>
    "cannot access path " ++ quote (String.ofList path) ++ ": " ++ error.message
  | config error => error.message
  | analysis error => error.message
  | document error => error.message
  | cannotCreate path => "failed to create " ++ String.ofList path
  | cannotWrite path => "failed to write " ++ String.ofList path
  | cannotWriteDocument path => "failed to write document " ++ String.ofList path
  | disk error => error.message

/-- What a command works on: a disk, and the texts that were printed so far. -/
structure Session where
  disk : Disk
  stdout : String := ""
  stderr : String := ""
deriving Inhabited

/-- A step of a command. -/
abbrev Procedure := ExceptT CommandError (StateM Session)

namespace Procedure

/-- Prints a result. -/
def print (text : String) : Procedure Unit :=
  modify fun session => { session with stdout := session.stdout ++ text }

/-- Prints a notice. -/
def notice (text : String) : Procedure Unit :=
  modify fun session => { session with stderr := session.stderr ++ text }

/-- The disk. -/
def disk : Procedure Disk := return (← get).disk

/-- A value, or a failure for a reason. -/
def ofExcept {ε α : Type} (reason : ε → CommandError) : Except ε α → Procedure α
  | .ok value => pure value
  | .error error => throw (reason error)

/-- Makes a directory and those above it. -/
def makeDirectories (path : List Char) (reason : DiskError → CommandError) : Procedure Unit := do
  let (made, error) := (← disk).makeDirectories path
  modify fun session => { session with disk := made }
  match error with
  | none => pure ()
  | some error => throw (reason error)

/-- Writes a file. -/
def write (path : List Char) (text : String) (reason : DiskError → CommandError) :
    Procedure Unit := do
  let changed ← ofExcept reason ((← disk).write path text.toUTF8)
  modify fun session => { session with disk := changed }

/-- Writes a file and makes the directories above it. -/
def writeBelow (path : List Char) (text : String) (reason : DiskError → CommandError) :
    Procedure Unit := do
  let above := (Path.parent? path).getD []
  if !above.isEmpty then makeDirectories above fun _ => .cannotCreate above
  write path text reason

/-- The absolute path of a project's root. -/
def rootOf (path : List Char) : Procedure (List Char) := do
  ofExcept (.inaccessible path) ((← disk).canonical path)

/-- The settings of a project. -/
def settings (root : List Char) (file : Option (List Char)) : Procedure Config := do
  ofExcept .config (Config.load (← disk) root file)

/-- The project at a root. -/
def project (root : List Char) (config : Config) : Procedure Project := do
  ofExcept .analysis (Project.open? (← disk) root config)

end Procedure

namespace Command

open Procedure

/-- The exit code of a command that did its work. -/
def success : Nat := 0

/-- The exit code of a command that refuses to work. -/
def refusal : Nat := 2

/-- Analyzes a project with some settings. -/
def AnalyzeOptions.runWith (options : AnalyzeOptions) (root : List Char) (config : Config) :
    Procedure Nat := do
  let output := if options.stdout then none
    else some (options.output.getD (Path.joined root config.output.toList))
  let document ← ofExcept .analysis (← project root config).document
  match output with
  | none => print document.toYaml
  | some path => writeBelow path document.toYaml fun _ => .cannotWriteDocument path
  notice (Report.documentSummary false (String.ofList root) (output.map String.ofList)
    (DocumentSummary.of document) ++ "\n")
  return success

/-- Writes the document of a project. -/
def AnalyzeOptions.run (options : AnalyzeOptions) : Procedure Nat := do
  let root ← rootOf options.path
  match Config.load (← disk) root options.config with
  | .error error =>
    notice ("Error: invalid config: " ++ error.message ++ "\n")
    return refusal
  | .ok config => options.runWith root config

/-- The root of a graph's project: the one that the document records if it is there. -/
def GraphOptions.root (options : GraphOptions) (document : Option Document) :
    Procedure (List Char) := do
  let disk ← disk
  let recorded := (document.bind fun document => document.root.path).map String.toList
  match recorded.filter disk.isDirectory with
  | some root => return root
  | none => rootOf options.path

/-- Makes the graph of a project or of a document. -/
def GraphOptions.run (options : GraphOptions) : Procedure Nat := do
  let disk ← disk
  let loaded ← options.source.mapM fun path => ofExcept .document (Document.load disk path)
  let root ← options.root loaded
  let config ← settings root options.config
  let project ← project root config
  let document ← match loaded with
    | some document => pure document
    | none => ofExcept .analysis project.document
  let graph := Graph.onDisk config disk document
  let text := graph.render options.pretty ++ "\n"
  match options.output with
  | none => print text
  | some path => writeBelow path text fun _ => .cannotWrite path
  notice (Report.graphSummary false (options.output.map String.ofList) (GraphSummary.of graph)
    ++ "\n")
  return success

/-- What to do with a new configuration file. -/
def InitOptions.nextSteps (options : InitOptions) : String :=
  let path := String.ofList options.output
  let isStandard :=
    Config.fileNames.any fun name => Path.fileName? options.output = some name.toList
  "Created " ++ path ++ "\n\nNext steps:\n  1. Edit " ++ path ++ " to match your project layout\n"
    ++ (if isStandard then "  2. Run: codedoc analyze\n"
      else "  2. Run: codedoc analyze --config " ++ path ++ "\n")

/-- Writes a configuration file. -/
def InitOptions.run (options : InitOptions) : Procedure Nat := do
  if (← disk).contains options.output && !options.force then
    notice ("Error: file already exists: " ++ String.ofList options.output
      ++ "\nUse --force to overwrite it\n")
    return refusal
  let above := (Path.parent? options.output).getD []
  if !above.isEmpty then makeDirectories above .disk
  write options.output template .disk
  print options.nextSteps
  return success

/-- Does what a command asks for. -/
def procedure : Command → Procedure Nat
  | analyze options => options.run
  | graph options => options.run
  | init options => options.run

/-- Runs a command: its exit code or the reason for its failure, and the session after it. -/
def run (command : Command) (session : Session) : Except CommandError Nat × Session :=
  command.procedure.run.run session

end Command

end SourceAtlas
