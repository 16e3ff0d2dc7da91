import Letrec.Text.Basic
import Letrec.Text.Quoted
import Letrec.Number.Numeral
import Letrec.Number.Shortest
import Letrec.Json.Basic
import Letrec.Json.Read
import Letrec.Json.Data
import Letrec.Time.Timestamp
import Letrec.Expr.Encode
import Letrec.Diagnostic
import Letrec.Yaml.Problem
import Letrec.Yaml.Source
import Letrec.Yaml.Cursor
import Letrec.Yaml.Lexeme.Scalar
import Letrec.Yaml.Lexeme.Block
import Letrec.Yaml.Lexeme.Tag
import Letrec.Yaml.Tokens
import Letrec.Yaml.Between
import Letrec.Yaml.Scalar
import Letrec.Yaml.Graph
import Letrec.Yaml.Document
import Letrec.Expr.Form
import Letrec.Expr.Decode
import Letrec.Yaml.Emit
import Letrec.Value
import Letrec.Evaluation.Event
import Letrec.Evaluation.Failure
import Letrec.Evaluation.Run
import Letrec.Scope
import Letrec.Prelude
import Letrec.Program
import Letrec.Yaml.Schema
import Letrec.Yaml.Fit
import Letrec.Help
import Letrec.Host
import Letrec.Config
import Letrec.Flags
import Letrec.Trace.Line
import Letrec.Trace.Summary
import Letrec.Command
import Letrec.Scenario
import Letrec.Main
import Letrec.Proofs.Evaluation.Usage
import Letrec.Proofs.Evaluation.Plan
import Letrec.Proofs.Evaluation.Lockstep
import Letrec.Proofs.Evaluation.Termination
import Letrec.Proofs.Evaluation.Budget
import Letrec.Proofs.Evaluation.Trace
import Letrec.Proofs.Evaluation.Linked
import Letrec.Proofs.Evaluation.Rules
import Letrec.Proofs.Evaluation.Refinement
import Letrec.Proofs.Scope.Check
import Letrec.Proofs.Scope.Soundness
import Letrec.Proofs.Scope.Free
import Letrec.Proofs.Scope.Exact
import Letrec.Proofs.Evaluation.Causes
import Letrec.Proofs.Number.Numeral
import Letrec.Proofs.Expr.Positions
import Letrec.Proofs.Expr.Grammar
import Letrec.Proofs.Expr.Decode
import Letrec.Proofs.Expr.Likeness
import Letrec.Proofs.Expr.RoundTrip
import Letrec.Proofs.Evaluation.Lexical
import Letrec.Proofs.Evaluation.Places
import Letrec.Proofs.Program.Canonical
import Letrec.Proofs.Command.Status
import Letrec.Proofs.Scope.Copies
import Letrec.Proofs.Expr.Reading
import Letrec.Proofs.Expr.Cycles
import Letrec.Proofs.Expr.Sharing
import Letrec.Proofs.Json.RoundTrip
import Letrec.Proofs.Trace.Lines
import Letrec.Proofs.Trace.Summary
import Letrec.Proofs.Prelude.Registration
import Letrec.Proofs.Text.Tokens
import Letrec.Proofs.Expr.Readability
import Letrec.Proofs.Text.Shift
import Letrec.Proofs.Evaluation.Journal
import Letrec.Proofs.Evaluation.Blame
import Letrec.Proofs.Evaluation.Cancellation
import Letrec.Proofs.Prelude.Unchecked
import Letrec.Proofs.Prelude.Arithmetic
import Letrec.Proofs.Command.Options
import Letrec.Proofs.Expr.Branch
import Letrec.Proofs.Expr.Findings
import Letrec.Proofs.Environment.Bindings
import Letrec.Proofs.Environment.Missing
import Letrec.Proofs.Evaluation.Cost
import Letrec.Proofs.Evaluation.Doubling
import Letrec.Proofs.Number.Binary64
import Letrec.Proofs.Json.Order
import Letrec.Proofs.Expr.Nesting
