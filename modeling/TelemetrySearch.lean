import TelemetrySearch.Text
import TelemetrySearch.Formula
import TelemetrySearch.Query.Token
import TelemetrySearch.Query.Fault
import TelemetrySearch.Query.Lexer
import TelemetrySearch.Query.Term
import TelemetrySearch.Query.Grammar
import TelemetrySearch.Sql.Literal
import TelemetrySearch.Sql.Placeholder
import TelemetrySearch.Sql.Condition
import TelemetrySearch.Sql.Statement
import TelemetrySearch.Duration
import TelemetrySearch.Dictionary
import TelemetrySearch.Table
import TelemetrySearch.Field
import TelemetrySearch.Error
import TelemetrySearch.Search
import TelemetrySearch.Yaml.Token
import TelemetrySearch.Yaml.Node
import TelemetrySearch.Settings
import TelemetrySearch.Settings.Document
import TelemetrySearch.CommandLine.Arguments
import TelemetrySearch.CommandLine.Run
import TelemetrySearch.Main
import TelemetrySearch.Proofs.FormulaValue
import TelemetrySearch.Proofs.Rendering
import TelemetrySearch.Proofs.LiteralScan
import TelemetrySearch.Proofs.QueryTree
import TelemetrySearch.Proofs.RowReading
import TelemetrySearch.Proofs.QueryMeaning
import TelemetrySearch.Proofs.FormulaShape
import TelemetrySearch.Proofs.Lexing
import TelemetrySearch.Proofs.QueryComposition
import TelemetrySearch.Proofs.TokenSpelling
import TelemetrySearch.Proofs.ArgumentPlacement
import TelemetrySearch.Proofs.FragmentOutline
import TelemetrySearch.Proofs.AssignmentRun
import TelemetrySearch.Proofs.TermOrder
import TelemetrySearch.Proofs.UnknownKeys
import TelemetrySearch.Proofs.PatternMeaning
import TelemetrySearch.Proofs.StatementRendering
import TelemetrySearch.Proofs.StructuralFaults
import TelemetrySearch.Proofs.DurationValue
import TelemetrySearch.Proofs.KeyedQuery
import TelemetrySearch.Proofs.LexicalFaults
import TelemetrySearch.Proofs.BlankGaps
import TelemetrySearch.Proofs.FormulaHeight
import TelemetrySearch.Proofs.RedundantAnd
import TelemetrySearch.Proofs.SoundLayout
import TelemetrySearch.Proofs.AttributeOrder
