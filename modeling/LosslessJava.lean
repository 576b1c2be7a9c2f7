import LosslessJava.Batch
import LosslessJava.Diff.Change
import LosslessJava.Diff.Compaction
import LosslessJava.Diff.Edit
import LosslessJava.Diff.Group
import LosslessJava.Diff.Line
import LosslessJava.Diff.LineDiff
import LosslessJava.Diff.Path
import LosslessJava.Diff.Script
import LosslessJava.Diff.Search
import LosslessJava.Edit
import LosslessJava.Grammar.Build.Cursor
import LosslessJava.Grammar.Build.Declaration
import LosslessJava.Grammar.Build.Expression
import LosslessJava.Grammar.Build.Statement
import LosslessJava.Grammar.Build.Type
import LosslessJava.Grammar.Declaration
import LosslessJava.Grammar.Expression
import LosslessJava.Grammar.Pair
import LosslessJava.Grammar.Parser
import LosslessJava.Grammar.Rule
import LosslessJava.Grammar.Rules
import LosslessJava.Grammar.Statement
import LosslessJava.Grammar.Terminal
import LosslessJava.Grammar.Text
import LosslessJava.Grammar.Type
import LosslessJava.Grammar.Variable
import LosslessJava.Imports
import LosslessJava.Indentation.Discovery
import LosslessJava.Indentation.Shift
import LosslessJava.Lex.Blank
import LosslessJava.Lex.Number
import LosslessJava.Lex.Quoted
import LosslessJava.Lex.Token
import LosslessJava.Literal.Binary64
import LosslessJava.Literal.Escape
import LosslessJava.Literal.Integer
import LosslessJava.Literal.Value
import LosslessJava.Location
import LosslessJava.Name.Identifier
import LosslessJava.Name.Qualified
import LosslessJava.ParseError
import LosslessJava.Print.Step
import LosslessJava.Print.Tree
import LosslessJava.Proofs.AddedImports
import LosslessJava.Proofs.Batch
import LosslessJava.Proofs.ClassNesting
import LosslessJava.Proofs.Comments
import LosslessJava.Proofs.Declarations
import LosslessJava.Proofs.Diff.Hunk
import LosslessJava.Proofs.Diff.Line
import LosslessJava.Proofs.Diff.Patch
import LosslessJava.Proofs.Diff.Path
import LosslessJava.Proofs.Diff.Script
import LosslessJava.Proofs.DominantIndentation
import LosslessJava.Proofs.Grammar.Agree
import LosslessJava.Proofs.Grammar.AgreeRules
import LosslessJava.Proofs.Grammar.AgreeTerminal
import LosslessJava.Proofs.Grammar.Arranging.Declaration
import LosslessJava.Proofs.Grammar.Arranging.Expression
import LosslessJava.Proofs.Grammar.Build.Chain
import LosslessJava.Proofs.Grammar.Build.Declaration
import LosslessJava.Proofs.Grammar.Build.Expression
import LosslessJava.Proofs.Grammar.Build.Matches
import LosslessJava.Proofs.Grammar.Build.Operand
import LosslessJava.Proofs.Grammar.Build.Statement
import LosslessJava.Proofs.Grammar.Build.Terminal
import LosslessJava.Proofs.Grammar.Build.Text
import LosslessJava.Proofs.Grammar.Build.Type
import LosslessJava.Proofs.Grammar.Build.Verdict
import LosslessJava.Proofs.Grammar.Build.Walk
import LosslessJava.Proofs.Grammar.Choice
import LosslessJava.Proofs.Grammar.Enclosed
import LosslessJava.Proofs.Grammar.Header
import LosslessJava.Proofs.Grammar.Lead
import LosslessJava.Proofs.Grammar.Lexed
import LosslessJava.Proofs.Grammar.Makes
import LosslessJava.Proofs.Grammar.Moved
import LosslessJava.Proofs.Grammar.Naming
import LosslessJava.Proofs.Grammar.PassesLead
import LosslessJava.Proofs.Grammar.Phrase
import LosslessJava.Proofs.Grammar.Piece
import LosslessJava.Proofs.Grammar.Reading.Declaration
import LosslessJava.Proofs.Grammar.Reading.Expression
import LosslessJava.Proofs.Grammar.Reading.Statement
import LosslessJava.Proofs.Grammar.Reading.Text
import LosslessJava.Proofs.Grammar.Reading.Type
import LosslessJava.Proofs.Grammar.Reading.Variable
import LosslessJava.Proofs.Grammar.Reads
import LosslessJava.Proofs.Grammar.Sequence
import LosslessJava.Proofs.Grammar.Shifted
import LosslessJava.Proofs.Grammar.Spelling.Declaration
import LosslessJava.Proofs.Grammar.Spelling.Expression
import LosslessJava.Proofs.Grammar.Spelling.Statement
import LosslessJava.Proofs.Grammar.Spelling.Text
import LosslessJava.Proofs.Grammar.Standing
import LosslessJava.Proofs.Grammar.Takes
import LosslessJava.Proofs.Grammar.Terminal
import LosslessJava.Proofs.Grammar.Written
import LosslessJava.Proofs.Identifiers
import LosslessJava.Proofs.ImportMatching
import LosslessJava.Proofs.ImportOrder
import LosslessJava.Proofs.ImportSorting
import LosslessJava.Proofs.ImportText
import LosslessJava.Proofs.Indentation.Composition
import LosslessJava.Proofs.Indentation.Dominant
import LosslessJava.Proofs.Indentation.Leads
import LosslessJava.Proofs.Indentation.Margin
import LosslessJava.Proofs.Indentation.Shift
import LosslessJava.Proofs.Indentation.Stretch
import LosslessJava.Proofs.InsertionOrder
import LosslessJava.Proofs.IntegerLiterals
import LosslessJava.Proofs.InvalidLiterals
import LosslessJava.Proofs.Isolation
import LosslessJava.Proofs.Lex.Gap
import LosslessJava.Proofs.Lex.Identifier
import LosslessJava.Proofs.Lex.Integer
import LosslessJava.Proofs.Lex.Legal
import LosslessJava.Proofs.Lex.Piecewise
import LosslessJava.Proofs.Lex.Placed
import LosslessJava.Proofs.Lex.Steady
import LosslessJava.Proofs.Literal.Escape
import LosslessJava.Proofs.Literal.Integer
import LosslessJava.Proofs.Locations
import LosslessJava.Proofs.Lossless
import LosslessJava.Proofs.MissingFeeds
import LosslessJava.Proofs.Moving
import LosslessJava.Proofs.Name.Qualified
import LosslessJava.Proofs.NameText
import LosslessJava.Proofs.Naming
import LosslessJava.Proofs.NearestElse
import LosslessJava.Proofs.Parsed
import LosslessJava.Proofs.PatchHeader
import LosslessJava.Proofs.Patching
import LosslessJava.Proofs.Precedence
import LosslessJava.Proofs.Print.Render
import LosslessJava.Proofs.PrintModes
import LosslessJava.Proofs.Resolve.Alike
import LosslessJava.Proofs.Resolve.Attribution
import LosslessJava.Proofs.Resolve.FullName
import LosslessJava.Proofs.Resolve.Imports
import LosslessJava.Proofs.Resolve.Naming
import LosslessJava.Proofs.Resolve.Places
import LosslessJava.Proofs.Resolve.Reference
import LosslessJava.Proofs.Resolve.Surroundings
import LosslessJava.Proofs.Resolve.TypeIndex
import LosslessJava.Proofs.Returning
import LosslessJava.Proofs.ShiftedLines
import LosslessJava.Proofs.SourceOrder
import LosslessJava.Proofs.Splicing
import LosslessJava.Proofs.StringLiterals
import LosslessJava.Proofs.TabIndentation
import LosslessJava.Proofs.Text.Blank
import LosslessJava.Proofs.Text.Bytes
import LosslessJava.Proofs.Text.Pieces
import LosslessJava.Proofs.Tree.Literals
import LosslessJava.Proofs.Tree.Naming
import LosslessJava.Proofs.Tree.Occurrence
import LosslessJava.Proofs.Tree.OpenStatement
import LosslessJava.Proofs.Tree.Part
import LosslessJava.Proofs.Tree.Path
import LosslessJava.Proofs.Tree.Precedence
import LosslessJava.Proofs.Tree.Shape
import LosslessJava.Proofs.Tree.Untyped
import LosslessJava.Proofs.TrimmedUnits
import LosslessJava.Proofs.Trimming
import LosslessJava.Proofs.Type.ClassType
import LosslessJava.Proofs.Visibility
import LosslessJava.Resolve.Attribution
import LosslessJava.Resolve.Scope
import LosslessJava.Resolve.TypeIndex
import LosslessJava.Text.Alphabetic
import LosslessJava.Text.Blank
import LosslessJava.Text.Letter
import LosslessJava.Text.LetterCase
import LosslessJava.Text.Numeric
import LosslessJava.Text.Ranges
import LosslessJava.Tree.Access
import LosslessJava.Tree.Build
import LosslessJava.Tree.Equality
import LosslessJava.Tree.Keyword
import LosslessJava.Tree.Lead
import LosslessJava.Tree.Node
import LosslessJava.Tree.Separated
import LosslessJava.Tree.TypeTree
import LosslessJava.Tree.Unit
import LosslessJava.Trivia
import LosslessJava.Type.ClassType
import LosslessJava.Type.JavaType
import LosslessJava.Type.Primitive
