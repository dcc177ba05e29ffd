import PyVerify.Process.Script
import PyVerify.Locks.Simulation
import PyVerify.Main
import PyVerify.Proofs.Locks.Inversion
import PyVerify.Proofs.Locks.CircularWait
import PyVerify.Proofs.Locks.Blocked
import PyVerify.Proofs.Locks.Hierarchy
import PyVerify.Proofs.Locks.Queue
import PyVerify.Proofs.Locks.Alarm
import PyVerify.Proofs.Checker.Climb
import PyVerify.Proofs.Checker.CommandLine
import PyVerify.Proofs.Checker.Retry
import PyVerify.Proofs.Text.Line
import PyVerify.Proofs.Checker.Excerpt
import PyVerify.Proofs.Checker.Reported
import PyVerify.Proofs.Checker.Verdict
import PyVerify.Proofs.Tree.Part
import PyVerify.Proofs.Profile.Distinct
import PyVerify.Proofs.Profile.Exact
import PyVerify.Proofs.Code.Emission
import PyVerify.Proofs.Code.Warrant
import PyVerify.Proofs.Code.Evaluation
import PyVerify.Proofs.Code.Precedence
import PyVerify.Proofs.Code.Assembly
import PyVerify.Proofs.Code.Assignment
import PyVerify.Proofs.Code.Redeclaration
import PyVerify.Proofs.Code.Visibility
import PyVerify.Proofs.Parser.Gives
import PyVerify.Proofs.Tree.Lexical
import PyVerify.Proofs.Parser.Expression
import PyVerify.Proofs.Parser.Pattern
import PyVerify.Proofs.Parser.Statement
import PyVerify.Proofs.Code.Lexical
import PyVerify.Proofs.Code.Primitive
import PyVerify.Proofs.Code.Scan
import PyVerify.Proofs.Code.Closed
import PyVerify.Proofs.Code.Clash
import PyVerify.Proofs.Code.Independence
import PyVerify.Proofs.Parser.Accepted
import PyVerify.Proofs.Parser.RoundTrip
import PyVerify.Proofs.Token.Lossless
import PyVerify.Proofs.Token.Lines
import PyVerify.Proofs.Parser.SoftWords
import PyVerify.Proofs.Parser.Concatenation
import PyVerify.Proofs.Code.Checks
import PyVerify.Proofs.Code.Registering
import PyVerify.Proofs.Code.RangeLoop
import PyVerify.Proofs.Parser.Spacing
import PyVerify.Proofs.Code.Declared
import PyVerify.Proofs.Code.Prototype
import PyVerify.Proofs.Locks.Account
import PyVerify.Proofs.Locks.Transcript
import PyVerify.Proofs.Checker.Limit
import PyVerify.Proofs.Checker.Selection
import PyVerify.Proofs.Checker.Priority
import PyVerify.Proofs.Checker.Repair
import PyVerify.Proofs.Checker.Timeout
import PyVerify.Proofs.Parser.Alone
import PyVerify.Proofs.Parser.EntryPoints
import PyVerify.Proofs.Parser.Settles
import PyVerify.Proofs.Parser.Settles.Expression
import PyVerify.Proofs.Parser.Settles.Pattern
import PyVerify.Proofs.Parser.Settles.Statement
import PyVerify.Proofs.Parser.Termination
import PyVerify.Proofs.Token.Failure
import PyVerify.Proofs.Parser.Diagnosis
import PyVerify.Proofs.Token.Abort
import PyVerify.Proofs.Token.Literal
import PyVerify.Proofs.Token.Integer
import PyVerify.Proofs.Token.Underscore
import PyVerify.Proofs.Profile.Loops
import PyVerify.Proofs.Profile.Hints
import PyVerify.Proofs.Process.Output
