import DataLayout.Alignment
import DataLayout.CommandLine.Options
import DataLayout.CommandLine.Program
import DataLayout.CompilationUnit
import DataLayout.Compile
import DataLayout.Declaration
import DataLayout.Declaration.Reader
import DataLayout.Device
import DataLayout.Expr
import DataLayout.Expr.Reader
import DataLayout.Expr.Value
import DataLayout.FileTree
import DataLayout.Loader
import DataLayout.Location
import DataLayout.Main
import DataLayout.Output
import DataLayout.Output.Assembly
import DataLayout.Output.Header
import DataLayout.Output.Piece
import DataLayout.Output.Report
import DataLayout.Output.Sink
import DataLayout.Path
import DataLayout.Phrase
import DataLayout.Primitive
import DataLayout.Proofs.Acceptance
import DataLayout.Proofs.Agreement
import DataLayout.Proofs.AliasOrder
import DataLayout.Proofs.Arithmetic
import DataLayout.Proofs.AsWritten
import DataLayout.Proofs.AssemblySymbols
import DataLayout.Proofs.Attempts
import DataLayout.Proofs.Bare
import DataLayout.Proofs.Binding
import DataLayout.Proofs.Compilation
import DataLayout.Proofs.ConstantMeaning
import DataLayout.Proofs.ConstantValues
import DataLayout.Proofs.Containment
import DataLayout.Proofs.DeclarationOrder
import DataLayout.Proofs.Declarators
import DataLayout.Proofs.Dependency
import DataLayout.Proofs.Emission
import DataLayout.Proofs.Enrichment
import DataLayout.Proofs.ExactLayout
import DataLayout.Proofs.ExactLines
import DataLayout.Proofs.Expansion
import DataLayout.Proofs.Expectations
import DataLayout.Proofs.ExpressionText
import DataLayout.Proofs.Failures
import DataLayout.Proofs.FileTrees
import DataLayout.Proofs.Flattening
import DataLayout.Proofs.Following
import DataLayout.Proofs.FollowingFiles
import DataLayout.Proofs.Fragments
import DataLayout.Proofs.FullSinks
import DataLayout.Proofs.Grammar
import DataLayout.Proofs.Idempotence
import DataLayout.Proofs.ImpossibleTokens
import DataLayout.Proofs.IncludeCycles
import DataLayout.Proofs.Inclusion
import DataLayout.Proofs.Independence
import DataLayout.Proofs.IntegerLiterals
import DataLayout.Proofs.JsonGrammar
import DataLayout.Proofs.Layers
import DataLayout.Proofs.Layout
import DataLayout.Proofs.Lexing
import DataLayout.Proofs.Lines
import DataLayout.Proofs.LoadSteps
import DataLayout.Proofs.Loading
import DataLayout.Proofs.LocatedNames
import DataLayout.Proofs.Lookahead
import DataLayout.Proofs.MemoryDirectory
import DataLayout.Proofs.Numbering
import DataLayout.Proofs.Ordering
import DataLayout.Proofs.OwnOutput
import DataLayout.Proofs.OwnPart
import DataLayout.Proofs.Phrases
import DataLayout.Proofs.Placement
import DataLayout.Proofs.Placing
import DataLayout.Proofs.PlainPaths
import DataLayout.Proofs.PlainTypes
import DataLayout.Proofs.Positions
import DataLayout.Proofs.Precedence
import DataLayout.Proofs.ProgramRuns
import DataLayout.Proofs.Progress
import DataLayout.Proofs.Pushback
import DataLayout.Proofs.Reading
import DataLayout.Proofs.Rebinding
import DataLayout.Proofs.Recursion
import DataLayout.Proofs.References
import DataLayout.Proofs.Rendering
import DataLayout.Proofs.Reordering
import DataLayout.Proofs.ReportText
import DataLayout.Proofs.ReportedNumbers
import DataLayout.Proofs.Requests
import DataLayout.Proofs.ReturnTypes
import DataLayout.Proofs.Reuse
import DataLayout.Proofs.Safety
import DataLayout.Proofs.SameValues
import DataLayout.Proofs.Scalars
import DataLayout.Proofs.SearchDirectories
import DataLayout.Proofs.SeparateCompilation
import DataLayout.Proofs.Sorting
import DataLayout.Proofs.Spelling
import DataLayout.Proofs.SyntaxErrors
import DataLayout.Proofs.Trivia
import DataLayout.Proofs.TypeShapes
import DataLayout.Proofs.TypeSymbols
import DataLayout.Proofs.TypeText
import DataLayout.Proofs.UnreadInput
import DataLayout.Proofs.Weighing
import DataLayout.Proofs.WellFormed
import DataLayout.Proofs.WordRounding
import DataLayout.Proofs.Words
import DataLayout.Proofs.WrittenFiles
import DataLayout.Proofs.WrittenTypes
import DataLayout.Resolution
import DataLayout.Resolution.Binding
import DataLayout.Resolution.Constants
import DataLayout.Resolution.Error
import DataLayout.Resolution.Order
import DataLayout.Resolution.Placement
import DataLayout.Source
import DataLayout.Source.Directories
import DataLayout.Source.Memory
import DataLayout.Source.Recorded
import DataLayout.Text.Alphabetic
import DataLayout.Text.Blank
import DataLayout.Text.Digest
import DataLayout.Text.Hex
import DataLayout.Text.Json
import DataLayout.Text.Numeric
import DataLayout.Text.Ranges
import DataLayout.Token
import DataLayout.Token.Characters
import DataLayout.Token.Lexeme
import DataLayout.Token.Lexer
import DataLayout.Token.Reader
import DataLayout.Token.Stream
import DataLayout.Ty
