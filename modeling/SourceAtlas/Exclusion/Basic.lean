import SourceAtlas.Config.Basic
import SourceAtlas.Exclusion.Rule
import SourceAtlas.Path

/-!
# Excluded paths

A path below a project's root is left out if the ignore rules leave out the path or a directory
above it, or if one of the configured patterns matches it. The rules for dependencies, build
results and version control come before those of the project's ignore file.
-/

namespace SourceAtlas

open Text

/-- What leaves paths of a project out. -/
structure Exclusion where
  rules : List IgnoreRule
  globs : List Glob
deriving Inhabited

namespace Exclusion

/-- Names that are left out of every project. -/
def standardNames : List String := ["node_modules", "dist", "out", "build", ".git"]

/-- The rules for the names that are left out of every project. -/
def standardRules : List IgnoreRule :=
  standardNames.filterMap fun name => IgnoreRule.parse? name.toList

/-- The configured patterns. -/
def parseGlobs : List String → Except GlobError (List Glob)
  | [] => .ok []
  | text :: texts =>
    match Glob.parse {} text.toList with
    | .error error => .error error
    | .ok glob => (parseGlobs texts).map (glob :: ·)

/-- What a configuration and the bytes of the ignore file, if it is read, leave out. -/
def build (config : Config) (ignoreFile : Option (List UInt8)) : Except GlobError Exclusion :=
  (parseGlobs config.excludedPaths).map fun globs =>
    { rules := standardRules ++ IgnoreFile.rules (ignoreFile.getD []), globs }

/-! ### Excluded paths -/

/-- What the rules say about a path or, if they say nothing, about the nearest directory above it
of which they say something. -/
def verdict? (exclusion : Exclusion) (path : List Char) (isDirectory : Bool) : Option Verdict :=
  (IgnoreRule.verdict? exclusion.rules path isDirectory).or
    ((Path.ancestors path).findSome? fun directory =>
      IgnoreRule.verdict? exclusion.rules directory true)

/-- A path without a `./` in front of it. -/
def withoutDot (path : List Char) : List Char := (['.', '/'].isPrefixOf? path).getD path

/-- Whether a relative path is left out. The root itself never is. -/
def excludes (exclusion : Exclusion) (path : List Char) (isDirectory : Bool) : Bool :=
  !path.isEmpty &&
    (exclusion.verdict? (withoutDot path) isDirectory = some .ignored ||
      exclusion.globs.any fun glob => glob.matchesPath path)

/-- Whether a path is left out; an absolute path is not below the root and has no answer. -/
def excludes? (exclusion : Exclusion) (path : List Char) (isDirectory : Bool) : Option Bool :=
  if Path.isAbsolute (withoutDot path) then none else some (exclusion.excludes path isDirectory)

end Exclusion

end SourceAtlas
