import SourceAtlas.Config.Basic
import SourceAtlas.Glob.Parse
import SourceAtlas.Text.Quoted

/-!
# Settings that cannot be worked with

`Config.fault?` finds the first reason why a configuration cannot be used.
-/

namespace SourceAtlas

open Text

/-- Why a configuration cannot be used. -/
inductive ConfigFault where
  | noExtensions
  | badExtension (extension : String)
  | emptyAlias
  | badExclusion (pattern : String) (error : GlobError)
  | emptyOutput
deriving Repr, DecidableEq, Inhabited

/-- The reason in words. -/
def ConfigFault.message : ConfigFault → String
  | noExtensions => "extensions must not be empty"
  | badExtension extension => "extension " ++ quote extension ++ " must start with a dot"
  | emptyAlias => "alias prefix must not be empty"
  | badExclusion pattern error =>
    "invalid excluded path " ++ quote pattern ++ ": " ++ error.message
  | emptyOutput => "output must not be empty"

namespace Config

/-- Whether an extension starts with a dot and has something after it. -/
def isExtension (extension : String) : Bool :=
  match extension.toList with
  | '.' :: _ :: _ => true
  | _ => false

/-- The fault of an excluded path that is no pattern. -/
def exclusionFault? (pattern : String) : Option ConfigFault :=
  match Glob.parse {} pattern.toList with
  | .ok _ => none
  | .error error => some (.badExclusion pattern error)

/-- The first reason why a configuration cannot be used. -/
def fault? (config : Config) : Option ConfigFault :=
  if config.extensions.isEmpty then some .noExtensions
  else match config.extensions.find? fun extension => !isExtension extension with
    | some extension => some (.badExtension extension)
    | none =>
      if config.aliases.any fun entry => entry.lead.isEmpty then some .emptyAlias
      else match config.excludedPaths.findSome? exclusionFault? with
        | some fault => some fault
        | none => if config.output.isEmpty then some .emptyOutput else none

end Config

end SourceAtlas
