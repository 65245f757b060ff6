import Lexis.Command.Line
import Lexis.Command.Report
import Lexis.File.Path
import Lexis.File.System
import Lexis.File.Tree
import Lexis.Lexeme
import Lexis.Literal.Basic
import Lexis.Literal.Decimal
import Lexis.Literal.Escape
import Lexis.Main
import Lexis.Number.Binary64
import Lexis.Number.Numeral
import Lexis.Piece.Basic
import Lexis.Piece.Digits
import Lexis.Piece.Item
import Lexis.Proofs.Command.Agreement
import Lexis.Proofs.Command.Diagnostic
import Lexis.Proofs.Command.Exit
import Lexis.Proofs.Command.Listing
import Lexis.Proofs.File.Path
import Lexis.Proofs.File.Pruned
import Lexis.Proofs.File.Tree
import Lexis.Proofs.Literal.Decimal
import Lexis.Proofs.Literal.Double
import Lexis.Proofs.Literal.Fault
import Lexis.Proofs.Literal.Runs
import Lexis.Proofs.Literal.Unescape
import Lexis.Proofs.Literal.Value
import Lexis.Proofs.Literal.Written
import Lexis.Proofs.Number.Binary64
import Lexis.Proofs.Number.Nearest
import Lexis.Proofs.Piece.Begins
import Lexis.Proofs.Piece.Decimal
import Lexis.Proofs.Piece.Gap
import Lexis.Proofs.Piece.Item
import Lexis.Proofs.Piece.Literal
import Lexis.Proofs.Piece.Malformed
import Lexis.Proofs.Piece.Masked
import Lexis.Proofs.Piece.Meaning
import Lexis.Proofs.Scan.Calls
import Lexis.Proofs.Scan.Coverage
import Lexis.Proofs.Scan.Errors
import Lexis.Proofs.Scan.Joined
import Lexis.Proofs.Scan.Layout
import Lexis.Proofs.Scan.Lexemes
import Lexis.Proofs.Scan.Lookahead
import Lexis.Proofs.Scan.Masked
import Lexis.Proofs.Scan.Reach
import Lexis.Proofs.Scan.Respacing
import Lexis.Proofs.Scan.Restart
import Lexis.Proofs.Scan.Rules
import Lexis.Proofs.Scan.Tiling
import Lexis.Proofs.Source.Counts
import Lexis.Proofs.Source.Lines
import Lexis.Proofs.Source.Occurrence
import Lexis.Proofs.Source.Standing
import Lexis.Proofs.Source.Track
import Lexis.Proofs.Text.Codepoint
import Lexis.Proofs.Text.Escaped
import Lexis.Proofs.Text.Hex
import Lexis.Proofs.Text.LineEnding
import Lexis.Proofs.Text.Lines
import Lexis.Proofs.Text.Search
import Lexis.Proofs.Text.Utf8
import Lexis.Proofs.Token.Ends
import Lexis.Proofs.Token.Keyword
import Lexis.Proofs.Token.Language
import Lexis.Proofs.Token.Longest
import Lexis.Proofs.Token.Lookahead
import Lexis.Proofs.UnitName.Faults
import Lexis.Proofs.UnitName.Words
import Lexis.Proofs.Workspace.Complete
import Lexis.Proofs.Workspace.Duplicates
import Lexis.Proofs.Workspace.FirstFault
import Lexis.Proofs.Workspace.Hidden
import Lexis.Proofs.Workspace.LineEnding
import Lexis.Proofs.Workspace.Loading
import Lexis.Proofs.Workspace.Map
import Lexis.Proofs.Workspace.Names
import Lexis.Proofs.Workspace.Ordered
import Lexis.Proofs.Workspace.Pointwise
import Lexis.Proofs.Workspace.Sources
import Lexis.Proofs.Workspace.Tree
import Lexis.Rules
import Lexis.ScanError
import Lexis.Source.Cursor
import Lexis.Source.LineTable
import Lexis.Source.Location
import Lexis.Source.Text
import Lexis.Text.Escaped
import Lexis.Text.Utf8
import Lexis.Token.Keyword
import Lexis.Token.Kind
import Lexis.Token.Mark
import Lexis.UnitName
import Lexis.Workspace.Basic
import Lexis.Workspace.Load
