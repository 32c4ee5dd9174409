import Imperative.Number
import Imperative.Number.Rounding
import Imperative.Number.Decimal
import Imperative.Number.Shortest
import Imperative.Number.Text
import Imperative.Text.Blank
import Imperative.Text.Alphanumeric
import Imperative.Word
import Imperative.Token
import Imperative.Token.Scan
import Imperative.Operator
import Imperative.Tree
import Imperative.Tree.Agreement
import Imperative.Tree.Rendering
import Imperative.ParseError
import Imperative.Parser.Basic
import Imperative.Parser.Expression
import Imperative.Parser.Statement
import Imperative.Cursor
import Imperative.Environment
import Imperative.RuntimeError
import Imperative.Transcript
import Imperative.Evaluator
import Imperative.Program
import Imperative.Session
import Imperative.FileTree
import Imperative.CommandLine
import Imperative.Main
import Imperative.Proofs.Reading
import Imperative.Proofs.Literal
import Imperative.Proofs.Scanning
import Imperative.Proofs.NormalForm
import Imperative.Proofs.Rendering
import Imperative.Proofs.Parsing
import Imperative.Proofs.Rounding
import Imperative.Proofs.Grammar
import Imperative.Proofs.Acceptance
import Imperative.Proofs.RoundTrip
import Imperative.Proofs.Bounds
import Imperative.Proofs.Semantics
import Imperative.Proofs.Adequacy
import Imperative.Proofs.Simulation
import Imperative.Proofs.Termination
import Imperative.Proofs.Output
import Imperative.Proofs.Dependence
import Imperative.Proofs.Failing
import Imperative.Proofs.Lines
import Imperative.Proofs.Relocation
import Imperative.Proofs.Completion
import Imperative.Proofs.Occurrence
import Imperative.Proofs.Activation
import Imperative.Proofs.Layout
import Imperative.Proofs.Pieces
import Imperative.Proofs.Spacing
import Imperative.Proofs.Writing
import Imperative.Proofs.Directory
import Imperative.Proofs.Refusal
import Imperative.Proofs.Looping
import Imperative.Proofs.Progress
import Imperative.Proofs.Longest
import Imperative.Proofs.Shortest
import Imperative.Proofs.NumberText
import Imperative.Proofs.Printing
import Imperative.Proofs.Notation
import Imperative.Proofs.Delimited
import Imperative.Proofs.Association
import Imperative.Proofs.Listing
import Imperative.Proofs.Equality
import Imperative.Proofs.History
