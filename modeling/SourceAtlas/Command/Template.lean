/-!
# The configuration template

The text of a new configuration file. It states every default setting.
-/

namespace SourceAtlas.Command

/-- The lines of a new configuration file. -/
def templateLines : List String :=
  ["# codedoc configuration",
    "#",
    "# Every key is optional. The values below are the built-in defaults.",
    "",
    "# Source extensions to analyze. The order is also the order in which",
    "# extensions are tried when an import omits one (`./button` ->",
    "# `./button.ts`, `./button.tsx`, ...).",
    "extensions:",
    "  - .ts",
    "  - .tsx",
    "  - .js",
    "  - .jsx",
    "",
    "# Extra glob patterns to skip, on top of node_modules, dist, out, build,",
    "# .git and the ignore file.",
    "# Example:",
    "#   excluded_paths:",
    "#     - \"**/__generated__/**\"",
    "#     - \"src/legacy/**\"",
    "excluded_paths: []",
    "",
    "# Ignore file read from the project root, with gitignore semantics.",
    "ignore_file: .gitignore",
    "respect_ignore_file: true",
    "",
    "# Import prefixes that refer to project directories.",
    "aliases:",
    "  - prefix: \"@/\"",
    "    target: src/",
    "",
    "# Where `codedoc analyze` writes the document, relative to the root.",
    "output: code-document.yaml"]

/-- The text of a new configuration file. -/
def template : String := String.join (templateLines.map fun line => line ++ "\n")

end SourceAtlas.Command
