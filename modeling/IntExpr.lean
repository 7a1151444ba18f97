import IntExpr.Text.Blank
import IntExpr.Text.Quoted
import IntExpr.Decimal
import IntExpr.Operator
import IntExpr.Location
import IntExpr.Config
import IntExpr.Token.Lexer
import IntExpr.Expr.Postorder
import IntExpr.Expr.Print
import IntExpr.Expr.Dot
import IntExpr.Evaluation
import IntExpr.Expr.Parser
import IntExpr.Token.Stream
import IntExpr.ParseResult
import IntExpr.Release
import IntExpr.Main
import IntExpr.Proofs.Scan
import IntExpr.Proofs.Lookahead
import IntExpr.Proofs.TokenParser
import IntExpr.Proofs.Pulling
import IntExpr.Proofs.Grammar
import IntExpr.Proofs.Nesting
import IntExpr.Proofs.Pushdown
import IntExpr.Proofs.ParserSound
import IntExpr.Proofs.ParseTokens
import IntExpr.Proofs.ParserComplete
import IntExpr.Proofs.Lexing
import IntExpr.Proofs.ParseText
import IntExpr.Proofs.OnePass
import IntExpr.Proofs.RoundTrip
import IntExpr.Proofs.Arithmetic
import IntExpr.Proofs.ExactValue
import IntExpr.Proofs.Strictness
import IntExpr.Proofs.ViablePrefix
import IntExpr.Proofs.FirstFailure
import IntExpr.Proofs.StackMachine
import IntExpr.Proofs.Tokenization
import IntExpr.Proofs.Cursor
import IntExpr.Proofs.Inorder
import IntExpr.Proofs.Regrouping
import IntExpr.Proofs.DigitLimit
import IntExpr.Proofs.Widening
import IntExpr.Proofs.NestingLimit
import IntExpr.Proofs.FaithfulResult
import IntExpr.Proofs.Halting
import IntExpr.Proofs.Rejection
import IntExpr.Proofs.Layout
import IntExpr.Proofs.CheckedOperator
import IntExpr.Proofs.DotReading
import IntExpr.Proofs.Division
import IntExpr.Proofs.Drawing
import IntExpr.Proofs.UniqueReading
import IntExpr.Proofs.Blanking
import IntExpr.Proofs.Places
import IntExpr.Proofs.Caret
import IntExpr.Proofs.Signs
import IntExpr.Proofs.ReadBack
import IntExpr.Proofs.SkippedRecords
import IntExpr.Proofs.WidthTexts
import IntExpr.Proofs.Loading
import IntExpr.Proofs.Lowering
import IntExpr.Proofs.CommandLines
import IntExpr.Proofs.Commands
import IntExpr.Proofs.PowerLoop
import IntExpr.Proofs.Printing
import IntExpr.Proofs.Descent
import IntExpr.Proofs.Segments
