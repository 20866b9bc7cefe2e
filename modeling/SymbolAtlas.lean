import SymbolAtlas.Atlas
import SymbolAtlas.CommandLine.Help
import SymbolAtlas.CommandLine.Options
import SymbolAtlas.CommandLine.Run
import SymbolAtlas.CommandLine.Word
import SymbolAtlas.Diff.Align
import SymbolAtlas.Diff.Stretch
import SymbolAtlas.Diff.Unified
import SymbolAtlas.Edit.Header
import SymbolAtlas.Edit.Request
import SymbolAtlas.Edit.Site
import SymbolAtlas.Edit.Splice
import SymbolAtlas.Failure
import SymbolAtlas.Files.Disk
import SymbolAtlas.Files.Gitignore
import SymbolAtlas.Files.Ignore
import SymbolAtlas.Files.MapItem
import SymbolAtlas.Files.Memory
import SymbolAtlas.Files.Path
import SymbolAtlas.Files.ProjectFiles
import SymbolAtlas.Files.RealPath
import SymbolAtlas.Files.Volume
import SymbolAtlas.Grammar
import SymbolAtlas.Host
import SymbolAtlas.Json.Basic
import SymbolAtlas.Json.Parser
import SymbolAtlas.Json.Printer
import SymbolAtlas.Json.Shown
import SymbolAtlas.Main
import SymbolAtlas.Map.Outline
import SymbolAtlas.Map.RepositoryMap
import SymbolAtlas.Number.Binary64
import SymbolAtlas.Number.Shortest
import SymbolAtlas.Proofs.CommandLine.Answers
import SymbolAtlas.Proofs.CommandLine.Applying
import SymbolAtlas.Proofs.CommandLine.Runs
import SymbolAtlas.Proofs.CommandLine.Written
import SymbolAtlas.Proofs.Diff.Identical
import SymbolAtlas.Proofs.Diff.Patch
import SymbolAtlas.Proofs.Diff.Patching
import SymbolAtlas.Proofs.Edit.ByHeader
import SymbolAtlas.Proofs.Edit.ByteExact
import SymbolAtlas.Proofs.Edit.Commuting
import SymbolAtlas.Proofs.Edit.Deletion
import SymbolAtlas.Proofs.Edit.Exchange
import SymbolAtlas.Proofs.Edit.FastPath
import SymbolAtlas.Proofs.Edit.HeaderLines
import SymbolAtlas.Proofs.Edit.HeaderMatch
import SymbolAtlas.Proofs.Edit.HeaderSpan
import SymbolAtlas.Proofs.Edit.Insertion
import SymbolAtlas.Proofs.Edit.Outcome
import SymbolAtlas.Proofs.Edit.OwnText
import SymbolAtlas.Proofs.Edit.Recreation
import SymbolAtlas.Proofs.Edit.Refused
import SymbolAtlas.Proofs.Edit.Repetition
import SymbolAtlas.Proofs.Edit.Replacement
import SymbolAtlas.Proofs.Edit.Transaction
import SymbolAtlas.Proofs.Files.Collecting
import SymbolAtlas.Proofs.Files.Entries
import SymbolAtlas.Proofs.Files.Ignoring
import SymbolAtlas.Proofs.Files.LinkFree
import SymbolAtlas.Proofs.Files.Lossless
import SymbolAtlas.Proofs.Files.Names
import SymbolAtlas.Proofs.Files.Refused
import SymbolAtlas.Proofs.Files.Storing
import SymbolAtlas.Proofs.Files.Walks
import SymbolAtlas.Proofs.Json.ReadBack
import SymbolAtlas.Proofs.Map.Nearest
import SymbolAtlas.Proofs.Map.Shown
import SymbolAtlas.Proofs.Settings.Loading
import SymbolAtlas.Proofs.Symbol.Candidates
import SymbolAtlas.Proofs.Symbol.DeclarationLines
import SymbolAtlas.Proofs.Symbol.FirstListed
import SymbolAtlas.Proofs.Symbol.Locating
import SymbolAtlas.Proofs.Symbol.Members
import SymbolAtlas.Proofs.Symbol.Methods
import SymbolAtlas.Proofs.Symbol.Named
import SymbolAtlas.Proofs.Symbol.Owners
import SymbolAtlas.Proofs.Symbol.Placing
import SymbolAtlas.Proofs.Symbol.SourceOrder
import SymbolAtlas.Proofs.Symbol.TopLevel
import SymbolAtlas.Proofs.Symbol.TopLevelPlaces
import SymbolAtlas.Proofs.Symbol.Variables
import SymbolAtlas.Proofs.Text.BlankLines
import SymbolAtlas.Proofs.Text.Characters
import SymbolAtlas.Proofs.Text.CodeLines
import SymbolAtlas.Proofs.Text.Lines
import SymbolAtlas.Proofs.Text.NewlineRuns
import SymbolAtlas.Proofs.Text.Numerals
import SymbolAtlas.Proofs.Text.Order
import SymbolAtlas.Proofs.Text.Points
import SymbolAtlas.Proofs.Text.Rows
import SymbolAtlas.Proofs.Text.Strict
import SymbolAtlas.Proofs.Tree.Placement
import SymbolAtlas.Proofs.Tree.Places
import SymbolAtlas.Proofs.Tree.Within
import SymbolAtlas.Report
import SymbolAtlas.Settings
import SymbolAtlas.Symbol.Basic
import SymbolAtlas.Symbol.Export
import SymbolAtlas.Symbol.Kind
import SymbolAtlas.Symbol.Listing
import SymbolAtlas.Symbol.Lookup
import SymbolAtlas.Text.Basic
import SymbolAtlas.Text.CodePoint
import SymbolAtlas.Text.Decimal
import SymbolAtlas.Text.Lowercase
import SymbolAtlas.Text.Offset
import SymbolAtlas.Text.Property
import SymbolAtlas.Text.Quoted
import SymbolAtlas.Text.Regex.Basic
import SymbolAtlas.Text.Regex.Reader
import SymbolAtlas.Text.Unprintable
import SymbolAtlas.Text.Utf8
import SymbolAtlas.Tree.Node
import SymbolAtlas.Tree.NodeType
import SymbolAtlas.Tree.Parsers
import SymbolAtlas.Tree.Range
import SymbolAtlas.Tree.Source
