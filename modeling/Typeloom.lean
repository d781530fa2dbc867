import Typeloom.ContentModel.Components
import Typeloom.ContentModel.Expression
import Typeloom.ContentModel.Graph
import Typeloom.ContentModel.OfSchema
import Typeloom.Context.Connection
import Typeloom.Context.Document
import Typeloom.Context.Module
import Typeloom.Context.StandardModule
import Typeloom.Encoding.Charset
import Typeloom.Encoding.Document
import Typeloom.Encoding.Utf8
import Typeloom.Encoding.Wide
import Typeloom.Fault
import Typeloom.Files.Archive
import Typeloom.Files.Change
import Typeloom.Files.FileSystem
import Typeloom.Files.Path
import Typeloom.Generate.Code
import Typeloom.Generate.Extension
import Typeloom.Generate.Outline
import Typeloom.Json.Access
import Typeloom.Json.Basic
import Typeloom.Json.Display
import Typeloom.Json.Equality
import Typeloom.Json.Reader
import Typeloom.Json.Token
import Typeloom.Json.Writer
import Typeloom.Main
import Typeloom.Message.Catalog
import Typeloom.Model.Analysis
import Typeloom.Model.Definition
import Typeloom.Model.Loading
import Typeloom.Model.TypeExpr
import Typeloom.Naming.Identifier
import Typeloom.Naming.Words
import Typeloom.Number.Binary64
import Typeloom.Number.Notation
import Typeloom.Number.Quantity
import Typeloom.Number.Shortest
import Typeloom.Options.Arguments
import Typeloom.Options.Config
import Typeloom.Options.Grammar
import Typeloom.Options.Mode
import Typeloom.Options.Options
import Typeloom.Options.Proxy
import Typeloom.Output.Writer
import Typeloom.Proofs.ContentModel.Language
import Typeloom.Render.CSharp
import Typeloom.Render.Python
import Typeloom.Render.Signature
import Typeloom.Report.Chain
import Typeloom.Report.Channel
import Typeloom.Report.Console
import Typeloom.Report.Diagnostic
import Typeloom.Report.Reporting
import Typeloom.Run.Compilation
import Typeloom.Run.Program
import Typeloom.Run.Publication
import Typeloom.Schema.Forest
import Typeloom.Schema.Library
import Typeloom.Schema.Node
import Typeloom.Schema.Reader
import Typeloom.Table
import Typeloom.Text.Hexadecimal
import Typeloom.Text.Lines
import Typeloom.Text.Pieces
import Typeloom.Text.Quoted
import Typeloom.Text.Similarity
import Typeloom.Text.Sorting
import Typeloom.Unicode.Blank
import Typeloom.Unicode.Digit
import Typeloom.Unicode.LowerCase
import Typeloom.Unicode.Printable
import Typeloom.Unicode.Runs
import Typeloom.Unicode.Word
import Typeloom.Uri.Basic
import Typeloom.Uri.Host
import Typeloom.Uri.Reference
import Typeloom.Uri.Source
import Typeloom.Proofs.Model.Ensures
import Typeloom.Proofs.Model.Translation
import Typeloom.Proofs.Model.Inheritance
import Typeloom.Proofs.Model.Names
import Typeloom.Proofs.Model.References
import Typeloom.Proofs.Report.Repetition
import Typeloom.Proofs.Schema.BreadthFirst
import Typeloom.Proofs.Schema.Growth
import Typeloom.Proofs.Schema.Closure
import Typeloom.Proofs.ContentModel.DepthFirst
import Typeloom.Proofs.ContentModel.Components
import Typeloom.Proofs.Schema.Targets
import Typeloom.Proofs.ContentModel.Bases
import Typeloom.Proofs.ContentModel.Blocks
import Typeloom.Proofs.Json.Numerals
import Typeloom.Proofs.Json.Readable
import Typeloom.Proofs.Json.RoundTrip
import Typeloom.Proofs.Schema.Loaded
import Typeloom.Proofs.Model.Clean
import Typeloom.Proofs.Model.Declarations
import Typeloom.Proofs.Model.NamedClasses
import Typeloom.Proofs.Model.Agreement
import Typeloom.Proofs.Model.Formed
import Typeloom.Proofs.Render.Spelling
import Typeloom.Proofs.Generate.Assignment
import Typeloom.Proofs.Render.Files
import Typeloom.Proofs.Render.Imports
import Typeloom.Proofs.Report.Transcript
import Typeloom.Proofs.Report.Scripted
import Typeloom.Proofs.Report.Essence
import Typeloom.Proofs.Schema.Shape
import Typeloom.Proofs.Schema.Reading
import Typeloom.Proofs.Schema.Walk
import Typeloom.Proofs.Schema.Nesting
import Typeloom.Proofs.Model.Presentable
import Typeloom.Proofs.Failing
import Typeloom.Proofs.Files.Places
import Typeloom.Proofs.Files.Effects
import Typeloom.Proofs.Output.Announcements
import Typeloom.Proofs.Output.Contents
import Typeloom.Proofs.Output.Delivery
import Typeloom.Proofs.Render.Renderable
import Typeloom.Proofs.Run.Publication
import Typeloom.Proofs.Run.Course
import Typeloom.Proofs.Run.Protocol
import Typeloom.Proofs.Run.Cancellation
import Typeloom.Proofs.Run.Verbosity
import Typeloom.Proofs.Run.Totality
import Typeloom.Proofs.Files.Units
import Typeloom.Proofs.Naming.Words
import Typeloom.Proofs.Model.TypeNames
import Typeloom.Proofs.Run.Production
import Typeloom.Proofs.Run.Alone
import Typeloom.Proofs.Run.WholeFiles
import Typeloom.Proofs.Run.Confinement
import Typeloom.Proofs.Run.Packing
import Typeloom.Proofs.Output.Packing
import Typeloom.Proofs.Options.Proxies
import Typeloom.Proofs.Output.Deposits
import Typeloom.Proofs.Output.Headers
import Typeloom.Proofs.Output.Progress
import Typeloom.Proofs.Generate.DistinctPaths
import Typeloom.Proofs.Generate.Renaming
import Typeloom.Proofs.Render.Renaming
import Typeloom.Proofs.Generate.Replacement
import Typeloom.Proofs.Model.AliasCycles
import Typeloom.Proofs.Model.CircularReferences
import Typeloom.Proofs.Model.SharedReferences
import Typeloom.Proofs.Model.Replay
import Typeloom.Proofs.Schema.Reordered
import Typeloom.Proofs.Model.Relocation
import Typeloom.Proofs.Model.DeclarationOrder
import Typeloom.Proofs.Schema.CrossReferences
import Typeloom.Proofs.Report.Receivers
import Typeloom.Proofs.Run.LoadErrors
import Typeloom.Proofs.Python.Tokens
import Typeloom.Proofs.Python.Evaluation
import Typeloom.Proofs.Python.Scalars
import Typeloom.Proofs.Python.Literals
import Typeloom.Proofs.Python.ReadBack
import Typeloom.Proofs.Python.Docstrings
import Typeloom.Proofs.Model.BaseChains
import Typeloom.Proofs.Model.InheritanceCycles
import Typeloom.Proofs.Model.EnumMembers
import Typeloom.Proofs.Schema.Readers
import Typeloom.Proofs.Schema.Places
import Typeloom.Proofs.Schema.Derivations
import Typeloom.Proofs.Model.UnionTypes
import Typeloom.Proofs.Model.ProperTypes
import Typeloom.Proofs.Render.TypeTexts
import Typeloom.Proofs.Report.Chronicles
import Typeloom.Proofs.Model.Beginnings
import Typeloom.Proofs.Model.Takers
import Typeloom.Proofs.Model.Fates
import Typeloom.Proofs.Json.Positions
import Typeloom.Proofs.Schema.DocumentParts
import Typeloom.Proofs.Schema.Locations
import Typeloom.Proofs.Naming.Identifiers
import Typeloom.Proofs.Render.ClassFiles
import Typeloom.Proofs.Render.SealedClasses
import Typeloom.Proofs.Render.Dataclasses
import Typeloom.Proofs.ContentModel.Loops
import Typeloom.Proofs.Render.TypingNames
import Typeloom.Proofs.Render.Signatures
import Typeloom.Proofs.Schema.Dumps
import Typeloom.Proofs.Naming.Boundaries
import Typeloom.Proofs.Render.Comments
import Typeloom.Proofs.Model.Composition
import Typeloom.Proofs.Model.BlamedClasses
import Typeloom.Proofs.Run.Markers
import Typeloom.Proofs.Schema.ReferenceOrder
import Typeloom.Proofs.Model.FreshNames
import Typeloom.Proofs.Naming.AttributeNames
