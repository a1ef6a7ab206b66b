import SourceAtlas.Config.Basic
import SourceAtlas.Syntax.Tree

/-!
# Imported modules

An import names its module by a specifier. `Specifier.isInternal` tells the modules of the project
from packages, and `specifiers` lists what a file imports, in source order and with repetitions.
-/

namespace SourceAtlas

open Text Syntax

namespace Specifier

/-- Whether a specifier names a file of the project: it is relative, starts at the project's root,
or starts with an alias. -/
def isInternal (config : Config) (specifier : List Char) : Bool :=
  specifier.head? = some '.' || specifier.head? = some '/' || (config.aliasFor? specifier).isSome

/-- The characters that delimit a specifier in a source file. -/
def isQuote (c : Char) : Bool := c == '"' || c == '\''

/-- A specifier without the quotes around it. -/
def unquote (source : List Char) : List Char := dropEndWhile isQuote (source.dropWhile isQuote)

end Specifier

/-- The specifiers that a file imports, in source order. An empty one names nothing. -/
def specifiers (items : List Item) : List (List Char) :=
  (itemImports items).filterMap fun source => nonEmpty? (Specifier.unquote source)

end SourceAtlas
