import SourceAtlas.Config.Basic
import SourceAtlas.Document.Yaml

/-!
# Settings as YAML
-/

namespace SourceAtlas

open Yaml Value

/-- The value of an alias. -/
def Alias.toYaml (entry : Alias) : Value :=
  .mapping [("prefix".toList, ofString entry.lead), ("target".toList, ofString entry.target)]

/-- The text of a configuration, with every setting in it. -/
def Config.toYaml (config : Config) : String :=
  String.ofList (Yaml.render
    [("extensions".toList, .sequence (config.extensions.map ofString)),
      ("excluded_paths".toList, .sequence (config.excludedPaths.map ofString)),
      ("ignore_file".toList, ofString config.ignoreFile),
      ("respect_ignore_file".toList, .truth config.respectIgnoreFile),
      ("aliases".toList, .sequence (config.aliases.map Alias.toYaml)),
      ("output".toList, ofString config.output)])

end SourceAtlas
