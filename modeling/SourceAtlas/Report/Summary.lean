import SourceAtlas.Document.Basic
import SourceAtlas.Graph.Basic
import SourceAtlas.Report.Paint

/-!
# Summaries for readers

The counts of a document or a graph in a few lines of text.
-/

namespace SourceAtlas.Report

/-- The version of the program. -/
def version : String := "0.1.0"

/-- A count. Zero is painted like a label. -/
def count (colored : Bool) (n : Nat) : String :=
  (if n = 0 then Paint.label else Paint.amount).apply colored (toString n)

/-- A line that names a place, if there is one. -/
def placeLine (colored : Bool) (label : String) (place : Option String) : List String :=
  match place with
  | none => []
  | some place => ["  " ++ Paint.label.apply colored label ++ place]

/-- The lines for the document of the project at a root. -/
def documentLines (colored : Bool) (root : String) (output : Option String)
    (summary : DocumentSummary) : List String :=
  let count := count colored
  ["  " ++ Paint.name.apply colored "codedoc" ++ " v" ++ version, ""]
    ++ placeLine colored "Analyzed: " (some root)
    ++ placeLine colored "Document: " output
    ++ ["",
      "  " ++ count summary.files ++ " files in " ++ count summary.directories
        ++ " directories, " ++ count summary.functions ++ " functions",
      "  " ++ count summary.internalImports ++ " internal imports, "
        ++ count summary.externalImports ++ " external imports"]
    ++ (if summary.files = 0 then
        ["  " ++ Paint.warning.apply colored "no source files found"] else [])

/-- The lines for a graph. -/
def graphLines (colored : Bool) (output : Option String) (summary : GraphSummary) : List String :=
  let count := count colored
  placeLine colored "Graph: " output
    ++ ["  " ++ count summary.nodes ++ " nodes, " ++ count summary.hierarchyLinks
      ++ " hierarchy links, " ++ count summary.dependencyLinks ++ " dependency links"]

/-- The summary of a document. -/
def documentSummary (colored : Bool) (root : String) (output : Option String)
    (summary : DocumentSummary) : String :=
  String.intercalate "\n" (documentLines colored root output summary)

/-- The summary of a graph. -/
def graphSummary (colored : Bool) (output : Option String) (summary : GraphSummary) : String :=
  String.intercalate "\n" (graphLines colored output summary)

end SourceAtlas.Report
