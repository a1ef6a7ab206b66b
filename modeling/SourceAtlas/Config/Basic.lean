import SourceAtlas.Text.Affix

/-!
# Settings of a run

`Config` says which files of a project are catalogued and how imports name them. Every setting has
a default, so a project without settings behaves like one that states the defaults.
-/

namespace SourceAtlas

open Text

/-- A text that imports may start with, and the directory it stands for. -/
structure Alias where
  lead : String
  target : String := ""
deriving Repr, DecidableEq, Inhabited

/-- The settings of a run. -/
structure Config where
  /-- The endings of source files, in the order in which imports try them. -/
  extensions : List String := [".ts", ".tsx", ".js", ".jsx"]
  /-- Patterns of paths that are left out besides those of the ignore file. -/
  excludedPaths : List String := []
  /-- The name of the ignore file at the project's root. -/
  ignoreFile : String := ".gitignore"
  /-- Whether the ignore file is read at all. -/
  respectIgnoreFile : Bool := true
  /-- The aliases of imports; the first that fits is used. -/
  aliases : List Alias := [{ lead := "@/", target := "src/" }]
  /-- The name of the written document, below the project's root. -/
  output : String := "code-document.yaml"
deriving Repr, DecidableEq, Inhabited

/-- The specifier with the alias replaced by what it stands for, if it starts with the alias. -/
def Alias.expand? (entry : Alias) (specifier : List Char) : Option (List Char) :=
  (entry.lead.toList.isPrefixOf? specifier).map fun rest => entry.target.toList ++ rest

namespace Config

/-- Whether a name ends like a source file. -/
def allows (config : Config) (name : List Char) : Bool :=
  config.extensions.any fun extension => extension.toList.isSuffixOf name

/-- The first alias that a specifier starts with. -/
def aliasFor? (config : Config) (specifier : List Char) : Option Alias :=
  config.aliases.find? fun entry => entry.lead.toList.isPrefixOf specifier

end Config

end SourceAtlas
