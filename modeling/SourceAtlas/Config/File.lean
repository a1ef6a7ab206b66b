import SourceAtlas.Config.Load
import SourceAtlas.Config.Validation
import SourceAtlas.Disk.Basic

/-!
# Configuration files

A run is configured by the file that it is given, or by one of the standard files at the project's
root. A project without such a file has the default settings.
-/

namespace SourceAtlas

/-- Why a project has no usable configuration. -/
inductive ConfigError where
  /-- The file cannot be read, or it does not hold settings. -/
  | unreadable (path : List Char)
  | invalid (fault : ConfigFault)
deriving Repr, DecidableEq, Inhabited

/-- The reason in words. -/
def ConfigError.message : ConfigError → String
  | unreadable path => "reading config " ++ String.ofList path
  | invalid fault => fault.message

namespace Config

/-- The names of configuration files at a project's root, in the order in which they are tried. -/
def fileNames : List String := ["codedoc.yaml", ".codedoc.yaml"]

/-- The configuration file at a project's root. -/
def discover? (disk : Disk) (root : List Char) : Option (List Char) :=
  (fileNames.map fun name => Path.joined root name.toList).find? disk.isFile

/-- The settings that a file holds. -/
def readFile (disk : Disk) (path : List Char) : Except ConfigError Config :=
  match disk.readText path with
  | .error _ => .error (.unreadable path)
  | .ok text =>
    match ofYaml? text with
    | none => .error (.unreadable path)
    | some config => .ok config

/-- The settings of a project, from the given file if there is one. -/
def settings (disk : Disk) (root : List Char) (file : Option (List Char)) :
    Except ConfigError Config :=
  match file.or (discover? disk root) with
  | none => .ok {}
  | some path => readFile disk path

/-- The settings of a project, if they can be worked with. -/
def load (disk : Disk) (root : List Char) (file : Option (List Char)) :
    Except ConfigError Config :=
  match settings disk root file with
  | .error error => .error error
  | .ok config =>
    match config.fault? with
    | some fault => .error (.invalid fault)
    | none => .ok config

end Config

end SourceAtlas
