import SourceAtlas.Command.Basic
import SourceAtlas.Command.Option
import SourceAtlas.Command.Run
import SourceAtlas.Command.Template
import SourceAtlas.Comment
import SourceAtlas.Config.Basic
import SourceAtlas.Config.File
import SourceAtlas.Config.Load
import SourceAtlas.Config.Validation
import SourceAtlas.Config.Yaml
import SourceAtlas.Disk.Basic
import SourceAtlas.Disk.Changes
import SourceAtlas.Disk.Write
import SourceAtlas.DocComment.Basic
import SourceAtlas.DocComment.Fields
import SourceAtlas.Document.Basic
import SourceAtlas.Document.File
import SourceAtlas.Document.Load
import SourceAtlas.Document.Yaml
import SourceAtlas.Exclusion.Basic
import SourceAtlas.Exclusion.Rule
import SourceAtlas.Glob.Basic
import SourceAtlas.Glob.Match
import SourceAtlas.Glob.Parse
import SourceAtlas.Graph.Basic
import SourceAtlas.Graph.Json
import SourceAtlas.Graph.Resolution
import SourceAtlas.Inventory.Basic
import SourceAtlas.Inventory.Description
import SourceAtlas.Inventory.Functions
import SourceAtlas.Inventory.Imports
import SourceAtlas.Inventory.Survey
import SourceAtlas.Json.Basic
import SourceAtlas.Json.Reader
import SourceAtlas.Json.Writer
import SourceAtlas.Main
import SourceAtlas.Path
import SourceAtlas.Project.Basic
import SourceAtlas.Project.SourceFiles
import SourceAtlas.Proofs.Command.Outcome
import SourceAtlas.Proofs.Command.WrittenDocument
import SourceAtlas.Proofs.Comment.Cleaning
import SourceAtlas.Proofs.Disk.Follow
import SourceAtlas.Proofs.Disk.Put
import SourceAtlas.Proofs.Disk.Tree
import SourceAtlas.Proofs.Disk.Without
import SourceAtlas.Proofs.DocComment.Continuations
import SourceAtlas.Proofs.DocComment.Parameters
import SourceAtlas.Proofs.DocComment.Printing
import SourceAtlas.Proofs.DocComment.Records
import SourceAtlas.Proofs.DocComment.Returns
import SourceAtlas.Proofs.DocComment.Tags
import SourceAtlas.Proofs.Document.Folding
import SourceAtlas.Proofs.Document.Order
import SourceAtlas.Proofs.Document.Pruning
import SourceAtlas.Proofs.Document.RoundTrip
import SourceAtlas.Proofs.Exclusion.Inheritance
import SourceAtlas.Proofs.Exclusion.StandardNames
import SourceAtlas.Proofs.Graph.Containment
import SourceAtlas.Proofs.Graph.Counts
import SourceAtlas.Proofs.Graph.Hierarchy
import SourceAtlas.Proofs.Graph.Imports
import SourceAtlas.Proofs.Graph.Links
import SourceAtlas.Proofs.Graph.OnePass
import SourceAtlas.Proofs.Graph.Places
import SourceAtlas.Proofs.Graph.Positions
import SourceAtlas.Proofs.Graph.Preference
import SourceAtlas.Proofs.Graph.Specifiers
import SourceAtlas.Proofs.Graph.Targets
import SourceAtlas.Proofs.Graph.Text
import SourceAtlas.Proofs.Graph.Traversal
import SourceAtlas.Proofs.Inventory.Completeness
import SourceAtlas.Proofs.Inventory.Documentation
import SourceAtlas.Proofs.Json.Spelling
import SourceAtlas.Proofs.Path.Cleaning
import SourceAtlas.Proofs.Path.Evaluation
import SourceAtlas.Proofs.Path.Names
import SourceAtlas.Proofs.Path.Relative
import SourceAtlas.Proofs.Project.Catalogue
import SourceAtlas.Proofs.Project.Changes
import SourceAtlas.Proofs.Project.Reopen
import SourceAtlas.Proofs.Project.SourceFiles
import SourceAtlas.Proofs.Text.Segments
import SourceAtlas.Proofs.Text.Trimming
import SourceAtlas.Proofs.Yaml.Arrival
import SourceAtlas.Proofs.Yaml.Literal
import SourceAtlas.Proofs.Yaml.Nodes
import SourceAtlas.Proofs.Yaml.Plain
import SourceAtlas.Proofs.Yaml.Quoted
import SourceAtlas.Proofs.Yaml.Records
import SourceAtlas.Proofs.Yaml.Steps
import SourceAtlas.Proofs.Yaml.Tokens
import SourceAtlas.Report.Paint
import SourceAtlas.Report.Summary
import SourceAtlas.Syntax.ClassBody
import SourceAtlas.Syntax.Dialect
import SourceAtlas.Syntax.Expression
import SourceAtlas.Syntax.Grammar
import SourceAtlas.Syntax.Lexeme
import SourceAtlas.Syntax.Markup
import SourceAtlas.Syntax.Reader
import SourceAtlas.Syntax.Semicolon
import SourceAtlas.Syntax.Statement
import SourceAtlas.Syntax.Tree
import SourceAtlas.Syntax.TypeNotation
import SourceAtlas.Text.Affix
import SourceAtlas.Text.Blank
import SourceAtlas.Text.Quoted
import SourceAtlas.Text.Unprintable
import SourceAtlas.Text.Word
import SourceAtlas.Yaml.Character
import SourceAtlas.Yaml.Decode
import SourceAtlas.Yaml.Folding
import SourceAtlas.Yaml.Implicit
import SourceAtlas.Yaml.Node
import SourceAtlas.Yaml.Scanner
import SourceAtlas.Yaml.Token
import SourceAtlas.Yaml.Writer
