import Lisplet.Session
import Lisplet.Mapping
import Lisplet.Reader.Cursor
import Lisplet.Settings
import Lisplet.Proofs.Outcome
import Lisplet.Proofs.Semantics
import Lisplet.Proofs.Soundness
import Lisplet.Proofs.Adequacy
import Lisplet.Proofs.Closed
import Lisplet.Proofs.HostFree
import Lisplet.Proofs.WriteSet
import Lisplet.Proofs.Grammar
import Lisplet.Proofs.Rounding
import Lisplet.Proofs.Tokens
import Lisplet.Proofs.Literals
import Lisplet.Proofs.Numbers
import Lisplet.Proofs.RoundTrip
import Lisplet.Proofs.Sequencing
import Lisplet.Proofs.Scope
import Lisplet.Proofs.Likeness
import Lisplet.Proofs.Agreement
import Lisplet.Proofs.ClosedWorld
import Lisplet.Proofs.Isolation
import Lisplet.Proofs.Grounded
import Lisplet.Proofs.Growth
import Lisplet.Proofs.History
import Lisplet.Proofs.Simulation
import Lisplet.Proofs.Lockstep
import Lisplet.Proofs.SameCode
import Lisplet.Proofs.Unmentioned
import Lisplet.Proofs.Commuting
import Lisplet.Proofs.Renaming
import Lisplet.Proofs.Scanning
import Lisplet.Proofs.Descent
import Lisplet.Proofs.Piecewise
import Lisplet.Proofs.CursorRuns
import Lisplet.Proofs.Nearest
import Lisplet.Proofs.LiteralGrammar
import Lisplet.Proofs.Approximation
import Lisplet.Proofs.Nesting
import Lisplet.Proofs.SequenceForms
import Lisplet.Proofs.LambdaSource
import Lisplet.Proofs.Shadowing
import Lisplet.Proofs.CallFrames
import Lisplet.Proofs.Refusals
import Lisplet.Proofs.ZeroDivisors
import Lisplet.Proofs.WholeNumbers
import Lisplet.Proofs.ExactOrder
import Lisplet.Proofs.StartingSessions
import Lisplet.Proofs.Logged
import Lisplet.Proofs.Deeds
import Lisplet.Proofs.Chronicle
import Lisplet.Proofs.TracedRuns
