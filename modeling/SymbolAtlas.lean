import SymbolAtlas.Arithmetic
import SymbolAtlas.Arithmetic.Logarithm
import SymbolAtlas.Build
import SymbolAtlas.Callers
import SymbolAtlas.Capture
import SymbolAtlas.CommandLine
import SymbolAtlas.CommandLine.Commands
import SymbolAtlas.CommandLine.Options
import SymbolAtlas.CommandLine.Usage
import SymbolAtlas.Decimal.Binary64
import SymbolAtlas.Decimal.Numeral
import SymbolAtlas.Decimal.Ratio
import SymbolAtlas.Decimal.Shortest
import SymbolAtlas.Decimal.Significant
import SymbolAtlas.Decimal.Style
import SymbolAtlas.Definers
import SymbolAtlas.Error
import SymbolAtlas.Extraction
import SymbolAtlas.Facts
import SymbolAtlas.FileList
import SymbolAtlas.FileTree
import SymbolAtlas.FileTree.Writing
import SymbolAtlas.Json.Read
import SymbolAtlas.Json.Write
import SymbolAtlas.Language
import SymbolAtlas.Language.Grammar
import SymbolAtlas.Language.Pack
import SymbolAtlas.Language.Packs
import SymbolAtlas.Log.Clock
import SymbolAtlas.Log.Event
import SymbolAtlas.Log.Journal
import SymbolAtlas.Log.Level
import SymbolAtlas.Log.Record
import SymbolAtlas.Main
import SymbolAtlas.Path
import SymbolAtlas.Path.Depth
import SymbolAtlas.Registry
import SymbolAtlas.Registry.Crew
import SymbolAtlas.Report
import SymbolAtlas.Score
import SymbolAtlas.Scoring
import SymbolAtlas.Settings
import SymbolAtlas.Settings.Coercion
import SymbolAtlas.Settings.Environment
import SymbolAtlas.Settings.Issue
import SymbolAtlas.Settings.Load
import SymbolAtlas.Settings.Validation
import SymbolAtlas.Source
import SymbolAtlas.Stats
import SymbolAtlas.SyntaxTree
import SymbolAtlas.SyntaxTree.Cursor
import SymbolAtlas.SyntaxTree.Dump
import SymbolAtlas.Table
import SymbolAtlas.TagQuery
import SymbolAtlas.TagQuery.Text
import SymbolAtlas.Text.Blank
import SymbolAtlas.Text.Lines
import SymbolAtlas.Text.Printable
import SymbolAtlas.Text.Quoted
import SymbolAtlas.Text.Similarity
import SymbolAtlas.Text.Utf8
import SymbolAtlas.Value
import SymbolAtlas.Value.Display
import SymbolAtlas.Value.Distinct
import SymbolAtlas.Wire
import SymbolAtlas.Yaml.Document
import SymbolAtlas.Yaml.Fault
import SymbolAtlas.Yaml.Loader
import SymbolAtlas.Yaml.Node
import SymbolAtlas.Yaml.Reader
import SymbolAtlas.Yaml.Resolution
import SymbolAtlas.Yaml.Token
import SymbolAtlas.Yaml.Token.Property
import SymbolAtlas.Yaml.Token.Stream
import SymbolAtlas.Yaml.Token.Text
import SymbolAtlas.Proofs.Homes
import SymbolAtlas.Proofs.Lookups
import SymbolAtlas.Proofs.Doubles
import SymbolAtlas.Proofs.Extracts
import SymbolAtlas.Proofs.Floats
import SymbolAtlas.Proofs.CallerLists
import SymbolAtlas.Proofs.Scores
import SymbolAtlas.Proofs.Builds
import SymbolAtlas.Proofs.ExactScores
import SymbolAtlas.Proofs.MachineScores
import SymbolAtlas.Proofs.Acceptance
import SymbolAtlas.Proofs.ScoringCalls
import SymbolAtlas.Proofs.Crews
import SymbolAtlas.Proofs.Contributions
import SymbolAtlas.Proofs.UsedRegistries
import SymbolAtlas.Proofs.Isolation
import SymbolAtlas.Proofs.Amounts
import SymbolAtlas.Proofs.FloatOrder
import SymbolAtlas.Proofs.ScoreNumbers
import SymbolAtlas.Proofs.Reordering
import SymbolAtlas.Proofs.Histories
import SymbolAtlas.Proofs.Counters
import SymbolAtlas.Proofs.Documents
import SymbolAtlas.Proofs.Variables
import SymbolAtlas.Proofs.Precedence
import SymbolAtlas.Proofs.ReportedOrder
import SymbolAtlas.Proofs.Requests
import SymbolAtlas.Proofs.LoadFaults
import SymbolAtlas.Proofs.Quoting
import SymbolAtlas.Proofs.Shortest
import SymbolAtlas.Proofs.Numerals
import SymbolAtlas.Proofs.JsonTexts
import SymbolAtlas.Proofs.WireTexts
import SymbolAtlas.Proofs.HomeMaps
import SymbolAtlas.Proofs.Captures
import SymbolAtlas.Proofs.Leaves
import SymbolAtlas.Proofs.Roles
import SymbolAtlas.Proofs.Depths
import SymbolAtlas.Proofs.CallerFaults
import SymbolAtlas.Proofs.ExternalCalls
import SymbolAtlas.Proofs.Positions
import SymbolAtlas.Proofs.CursorWalks
import SymbolAtlas.Proofs.PathReadings
import SymbolAtlas.Proofs.SignificantDigits
