import DocLint.Check.Basic
import DocLint.Check.Entry
import DocLint.Check.Layout
import DocLint.Check.Parameters
import DocLint.Check.Registry
import DocLint.Check.Results
import DocLint.Check.Summary
import DocLint.CommandLine
import DocLint.Diagnostic.Basic
import DocLint.Diagnostic.Code
import DocLint.Diagnostic.Collector
import DocLint.Diagnostic.Render
import DocLint.Diagnostic.Template
import DocLint.Docstring.Basic
import DocLint.Docstring.Description
import DocLint.Docstring.Flaw
import DocLint.Docstring.Line
import DocLint.Docstring.Literal
import DocLint.Docstring.ParameterList
import DocLint.Docstring.Reader
import DocLint.Docstring.Section
import DocLint.Docstring.SeeAlso
import DocLint.Docstring.Signature
import DocLint.Docstring.TypeList
import DocLint.FileTree
import DocLint.Lint.Config
import DocLint.Lint.Report
import DocLint.Lint.Validator
import DocLint.Main
import DocLint.Proofs.Canonical.Contents
import DocLint.Proofs.Canonical.Entries
import DocLint.Proofs.Canonical.Headers
import DocLint.Proofs.Canonical.Layout
import DocLint.Proofs.Canonical.Reading
import DocLint.Proofs.Canonical.Rules
import DocLint.Proofs.Canonical.Sections
import DocLint.Proofs.Canonical.Summary
import DocLint.Proofs.Canonical.Text
import DocLint.Proofs.Canonical.Validation
import DocLint.Proofs.Check.Agreement
import DocLint.Proofs.Check.ColonSpacing
import DocLint.Proofs.Check.Coverage
import DocLint.Proofs.Check.Discipline
import DocLint.Proofs.Check.Extents
import DocLint.Proofs.Check.Margin
import DocLint.Proofs.Check.Restatement
import DocLint.Proofs.Check.Retelling
import DocLint.Proofs.Check.Retold
import DocLint.Proofs.Check.SectionOrder
import DocLint.Proofs.Check.Slices
import DocLint.Proofs.Concatenation.Contributions
import DocLint.Proofs.Concatenation.Embedding
import DocLint.Proofs.Concatenation.Files
import DocLint.Proofs.Concatenation.Headers
import DocLint.Proofs.Concatenation.Lexemes
import DocLint.Proofs.Concatenation.Lexing
import DocLint.Proofs.Concatenation.LineEnds
import DocLint.Proofs.Concatenation.Lines
import DocLint.Proofs.Concatenation.Lowering
import DocLint.Proofs.Concatenation.Openings
import DocLint.Proofs.Concatenation.Places
import DocLint.Proofs.Concatenation.Scanning
import DocLint.Proofs.Concatenation.Seam
import DocLint.Proofs.Diagnostic.Alignment
import DocLint.Proofs.Diagnostic.Collecting
import DocLint.Proofs.Docstring.Boundaries
import DocLint.Proofs.Docstring.ChoiceSets
import DocLint.Proofs.Docstring.Content
import DocLint.Proofs.Docstring.Delimiters
import DocLint.Proofs.Docstring.EntryBlocks
import DocLint.Proofs.Docstring.EntryHeader
import DocLint.Proofs.Docstring.Fidelity
import DocLint.Proofs.Docstring.Headings
import DocLint.Proofs.Docstring.Literal
import DocLint.Proofs.Docstring.Paragraphs
import DocLint.Proofs.Docstring.Pieces
import DocLint.Proofs.Docstring.ReaderRuns
import DocLint.Proofs.Docstring.ReferencePieces
import DocLint.Proofs.Docstring.Sections
import DocLint.Proofs.Docstring.Segmentation
import DocLint.Proofs.Docstring.Signatures
import DocLint.Proofs.Docstring.Summary
import DocLint.Proofs.Docstring.TypeBrackets
import DocLint.Proofs.Docstring.TypeSplitting
import DocLint.Proofs.Grammar.Findings
import DocLint.Proofs.Grammar.Headers
import DocLint.Proofs.Grammar.Lambdas
import DocLint.Proofs.Grammar.Meaning
import DocLint.Proofs.Grammar.Module
import DocLint.Proofs.Grammar.ParameterTexts
import DocLint.Proofs.Grammar.Parameters
import DocLint.Proofs.Grammar.Runs
import DocLint.Proofs.Grammar.Scan
import DocLint.Proofs.Grammar.Syntax
import DocLint.Proofs.LineEndings.Lexemes
import DocLint.Proofs.LineEndings.Lexing
import DocLint.Proofs.LineEndings.Text
import DocLint.Proofs.Lint.Accounting
import DocLint.Proofs.Lint.Isolation
import DocLint.Proofs.Lint.Placement
import DocLint.Proofs.Lint.Suppression
import DocLint.Proofs.Lint.Totality
import DocLint.Proofs.Options.Agreement
import DocLint.Proofs.Options.Order
import DocLint.Proofs.Padding.Docstring
import DocLint.Proofs.Padding.Linting
import DocLint.Proofs.Padding.SeeAlso
import DocLint.Proofs.Padding.Text
import DocLint.Proofs.Paths.Exclusion
import DocLint.Proofs.Paths.Patterns
import DocLint.Proofs.Paths.Pruning
import DocLint.Proofs.Printing.Parameters
import DocLint.Proofs.Printing.References
import DocLint.Proofs.Printing.SeeAlso
import DocLint.Proofs.Printing.Types
import DocLint.Proofs.Reindentation.Checks
import DocLint.Proofs.Reindentation.Descriptions
import DocLint.Proofs.Reindentation.Docstring
import DocLint.Proofs.Reindentation.Entries
import DocLint.Proofs.Reindentation.Lines
import DocLint.Proofs.Reindentation.Linting
import DocLint.Proofs.Reindentation.Text
import DocLint.Proofs.Source.Attachment
import DocLint.Proofs.Source.BlockStructure
import DocLint.Proofs.Source.Brackets
import DocLint.Proofs.Source.CommentPlace
import DocLint.Proofs.Source.Breakdown
import DocLint.Proofs.Source.Loops
import DocLint.Proofs.Source.Nesting
import DocLint.Proofs.Source.Ownership
import DocLint.Proofs.Source.Progress
import DocLint.Proofs.Source.Provenance
import DocLint.Proofs.Source.Reading
import DocLint.Proofs.Source.Rendering
import DocLint.Proofs.Source.ScanCases
import DocLint.Proofs.Source.Simulation
import DocLint.Proofs.Source.Sites
import DocLint.Proofs.Source.Spelling
import DocLint.Proofs.Source.StringLiteral
import DocLint.Proofs.Source.Tiling
import DocLint.Proofs.Source.TokenPlace
import DocLint.Proofs.Source.TokenText
import DocLint.Proofs.Text.Edges
import DocLint.Proofs.Text.Extent
import DocLint.Proofs.Text.Lines
import DocLint.Proofs.Text.Place
import DocLint.Source.Declaration
import DocLint.Source.Fault
import DocLint.Source.Lexeme
import DocLint.Source.Lexer
import DocLint.Source.Noqa
import DocLint.Source.ParameterItem
import DocLint.Source.Scanner
import DocLint.Source.Token
import DocLint.Source.TokenCursor
import DocLint.Text.Bytes
import DocLint.Text.Glob
import DocLint.Text.Position
