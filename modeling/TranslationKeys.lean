import TranslationKeys.Command.Arguments
import TranslationKeys.Command.Ending
import TranslationKeys.Command.Outcome
import TranslationKeys.Command.Report
import TranslationKeys.Command.Run
import TranslationKeys.Config.Basic
import TranslationKeys.Config.Decoder
import TranslationKeys.Config.Search
import TranslationKeys.Expr.Basic
import TranslationKeys.Expr.Diagnostic
import TranslationKeys.Expr.Lexeme
import TranslationKeys.Expr.Parser
import TranslationKeys.Expr.Printer
import TranslationKeys.Expr.Reading
import TranslationKeys.Expr.Trace
import TranslationKeys.Files.Basic
import TranslationKeys.Files.Path
import TranslationKeys.Json.Basic
import TranslationKeys.Json.Decoder
import TranslationKeys.Json.Printer
import TranslationKeys.Main
import TranslationKeys.Number.Binary64
import TranslationKeys.Number.Numeral
import TranslationKeys.Number.Shortest
import TranslationKeys.Proofs.Acceptance
import TranslationKeys.Proofs.Additions
import TranslationKeys.Proofs.Answers
import TranslationKeys.Proofs.Carets
import TranslationKeys.Proofs.Climbing
import TranslationKeys.Proofs.CompactTrees
import TranslationKeys.Proofs.Continuation
import TranslationKeys.Proofs.CutSettings
import TranslationKeys.Proofs.CutValues
import TranslationKeys.Proofs.Decoders
import TranslationKeys.Proofs.Decoration
import TranslationKeys.Proofs.Described
import TranslationKeys.Proofs.Documents
import TranslationKeys.Proofs.Entries
import TranslationKeys.Proofs.Failures
import TranslationKeys.Proofs.FirstProblem
import TranslationKeys.Proofs.Following
import TranslationKeys.Proofs.FreshSettings
import TranslationKeys.Proofs.InputLines
import TranslationKeys.Proofs.Insertion
import TranslationKeys.Proofs.JsonGrammar
import TranslationKeys.Proofs.Lexemes
import TranslationKeys.Proofs.LiteralEnds
import TranslationKeys.Proofs.LongerTexts
import TranslationKeys.Proofs.Lossless
import TranslationKeys.Proofs.Machine
import TranslationKeys.Proofs.Notation
import TranslationKeys.Proofs.OpenBlocks
import TranslationKeys.Proofs.Openings
import TranslationKeys.Proofs.Places
import TranslationKeys.Proofs.Prefixes
import TranslationKeys.Proofs.Progress
import TranslationKeys.Proofs.Repair
import TranslationKeys.Proofs.Reports
import TranslationKeys.Proofs.RoundTrip
import TranslationKeys.Proofs.Rules
import TranslationKeys.Proofs.Segments
import TranslationKeys.Proofs.Separation
import TranslationKeys.Proofs.Settings
import TranslationKeys.Proofs.Skipping
import TranslationKeys.Proofs.Stops
import TranslationKeys.Proofs.Streams
import TranslationKeys.Proofs.Unambiguous
import TranslationKeys.Proofs.ValuePlaces
import TranslationKeys.Proofs.Walk
import TranslationKeys.Proofs.WrittenArguments
import TranslationKeys.Text.Basic
import TranslationKeys.Text.Bytes
import TranslationKeys.Text.Lines
import TranslationKeys.Text.Mark
import TranslationKeys.Text.Printable
import TranslationKeys.Text.Quoted
import TranslationKeys.Text.Styled
import TranslationKeys.Text.Width
