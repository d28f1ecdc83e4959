import Lisp.Main
import Lisp.Repl.Completion
import Lisp.Repl.Highlight
import Lisp.Value.Inspect
import Lisp.Proofs.Direct.Rules
import Lisp.Proofs.Direct.Template
import Lisp.Proofs.Machine.Steps
import Lisp.Proofs.Direct.Simulation
import Lisp.Proofs.Direct.Refinement
import Lisp.Proofs.Dict
import Lisp.Proofs.Direct.Respected
import Lisp.Proofs.Store.Scope
import Lisp.Proofs.Store.Caller
import Lisp.Proofs.Token.Places
import Lisp.Proofs.Token.Rules
import Lisp.Proofs.Token.Division
import Lisp.Proofs.Token.Partition
import Lisp.Proofs.Reader.Grammar
import Lisp.Proofs.Reader.Acceptance
import Lisp.Proofs.Token.Lexemes
import Lisp.Proofs.Reader.Places
import Lisp.Proofs.Reader.Layout
import Lisp.Proofs.Reader.Splitting
import Lisp.Proofs.Reader.Progress
import Lisp.Proofs.Report
import Lisp.Proofs.Number.Bits
import Lisp.Proofs.Number.Rounding
import Lisp.Proofs.Number.Shortest
import Lisp.Proofs.Number.Text
import Lisp.Proofs.Value.RoundTrip
import Lisp.Proofs.Value.Rereading
import Lisp.Proofs.Value.Equality
import Lisp.Proofs.Value.Closures
import Lisp.Proofs.Machine.Discipline
import Lisp.Proofs.Machine.Moves
import Lisp.Proofs.Machine.Lifting
import Lisp.Proofs.Store.Streams
import Lisp.Proofs.Store.Lines
import Lisp.Proofs.Store.Forest
import Lisp.Proofs.Store.Operations
import Lisp.Proofs.Store.Assignment
import Lisp.Proofs.Machine.Depth
import Lisp.Proofs.Machine.TailCalls
import Lisp.Proofs.Machine.Waiting
import Lisp.Proofs.Machine.Equivalence
import Lisp.Proofs.Value.Substitution
import Lisp.Proofs.Machine.Templates
import Lisp.Proofs.Machine.Calls
import Lisp.Proofs.Machine.Definitions
import Lisp.Proofs.Machine.Parameters
import Lisp.Proofs.Machine.Aliases
import Lisp.Proofs.Machine.QuotedText
import Lisp.Proofs.Program
import Lisp.Proofs.Machine.LiteralText
import Lisp.Proofs.Repl.Regions
import Lisp.Proofs.Repl.Balance
import Lisp.Proofs.Repl.Verdicts
import Lisp.Proofs.Repl.Rejection
import Lisp.Proofs.Repl.Highlight
import Lisp.Proofs.Native.Hashes
import Lisp.Proofs.Native.Arithmetic
import Lisp.Proofs.Machine.Mapping
import Lisp.Proofs.FileRunner
import Lisp.Proofs.Reader.Strings
import Lisp.Proofs.Machine.ParameterLists
import Lisp.Proofs.Token.Blank
import Lisp.Proofs.Repl.Trimming
import Lisp.Proofs.Repl.Completion
