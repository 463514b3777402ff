import Rpn.Main
import Rpn.Proofs.Expansion.Leaves
import Rpn.Proofs.Expansion.Cursor
import Rpn.Proofs.Dictionary.Sound
import Rpn.Proofs.Session.Reserved
import Rpn.Proofs.Session.Failure
import Rpn.Proofs.Value.Text
import Rpn.Proofs.Stack.Normal
import Rpn.Proofs.Stack.Refusal
import Rpn.Proofs.Session.Canonical
import Rpn.Proofs.Session.Lines
import Rpn.Proofs.Dictionary.Change
import Rpn.Proofs.Expansion.Marker
import Rpn.Proofs.Dictionary.OrderedMap
import Rpn.Proofs.Session.Comparison
import Rpn.Proofs.Session.Diagnostics
import Rpn.Proofs.Session.OutputLimit
import Rpn.Proofs.Expansion.Cycles
import Rpn.Proofs.Session.Frame
import Rpn.Proofs.Session.Stash
import Rpn.Proofs.Expansion.Layout
import Rpn.Proofs.Session.Retyping
import Rpn.Proofs.Expansion.Accounts
import Rpn.Proofs.Session.Blank
import Rpn.Proofs.Program.Conversation
import Rpn.Proofs.Value.Exact
import Rpn.Proofs.Value.Literal
import Rpn.Proofs.Value.Power
import Rpn.Proofs.Value.Factorial
import Rpn.Proofs.Stack.Factorial
import Rpn.Proofs.Stack.Remainder
import Rpn.Proofs.Stack.Quotient
import Rpn.Proofs.Value.Tens
import Rpn.Proofs.Stack.Total
import Rpn.Proofs.Value.Separators
import Rpn.Proofs.Text.Wrap
import Rpn.Proofs.Session.Loading
import Rpn.Proofs.Session.Listing
import Rpn.Proofs.Text.Tokens
import Rpn.Proofs.Value.Collapse
