import Abacus.Calculator
import Abacus.CommandLine.Command
import Abacus.CommandLine.Listing
import Abacus.CommandLine.Options
import Abacus.CommandLine.Outcome
import Abacus.CommandLine.Run
import Abacus.Event
import Abacus.Expr.Basic
import Abacus.Expr.Depth
import Abacus.Expr.Draft
import Abacus.Expr.Drawing
import Abacus.Expr.OfTokens
import Abacus.Expr.Text
import Abacus.Folder
import Abacus.Literal
import Abacus.Log
import Abacus.Notice
import Abacus.Number.Binary64
import Abacus.Operator
import Abacus.Session.Input
import Abacus.Session.Run
import Abacus.Settings.Basic
import Abacus.Settings.Entries
import Abacus.Settings.Load
import Abacus.Settings.Values
import Abacus.Text.Blank
import Abacus.Text.Hex
import Abacus.Text.Integer
import Abacus.Text.Lines
import Abacus.Text.Numeral
import Abacus.Text.Printable
import Abacus.Text.Quoted
import Abacus.Text.Terminal
import Abacus.Text.Utf8
import Abacus.Token.Basic
import Abacus.Token.Scan
import Abacus.Toml.Compound
import Abacus.Toml.Document
import Abacus.Toml.Reader
import Abacus.Toml.Scalar
import Abacus.Toml.Text
import Abacus.Toml.Value
import Abacus.Main
import Abacus.Proofs.Grammar
import Abacus.Proofs.Outlook
import Abacus.Proofs.Evaluation
import Abacus.Proofs.Scanning
import Abacus.Proofs.Refusal
import Abacus.Proofs.TwoStacks
import Abacus.Proofs.Traversal
import Abacus.Proofs.Nesting
import Abacus.Proofs.Rescanning
import Abacus.Proofs.RoundTrip
import Abacus.Proofs.Stages
import Abacus.Proofs.Lines
import Abacus.Proofs.Transcript
import Abacus.Proofs.Interruption
import Abacus.Proofs.Bracketing
import Abacus.Proofs.Redundancy
import Abacus.Proofs.SparseText
import Abacus.Proofs.Cursor
import Abacus.Proofs.Checks
import Abacus.Proofs.Concatenation
import Abacus.Proofs.Replay
import Abacus.Proofs.Arguments
import Abacus.Proofs.FrontEnds
import Abacus.Proofs.Utf8
import Abacus.Proofs.Documents
import Abacus.Proofs.Loading
import Abacus.Proofs.Splitting
import Abacus.Proofs.Drafts
import Abacus.Proofs.Grouping
import Abacus.Proofs.OutOfRange
import Abacus.Proofs.Overrides
import Abacus.Proofs.SessionOptions
import Abacus.Proofs.Excerpts
import Abacus.Proofs.Calls
import Abacus.Proofs.Branches
import Abacus.Proofs.Drawings
