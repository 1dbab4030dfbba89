import NodeQuery.Query
import NodeQuery.Inspect
import NodeQuery.Workspace
import NodeQuery.Program.Trace
import NodeQuery.Proofs.Program.Order
import NodeQuery.Proofs.Selector.Selection
import NodeQuery.Proofs.Expr.Calls
import NodeQuery.Proofs.Expr.SideBySide
import NodeQuery.Proofs.Handler.Requests
import NodeQuery.Proofs.Handler.Refusal
import NodeQuery.Proofs.Handler.Decoration
import NodeQuery.Proofs.Handler.Arrangement
import NodeQuery.Proofs.Expr.Arrangement
import NodeQuery.Proofs.Expr.Grammar
import NodeQuery.Proofs.Expr.ReadBack
import NodeQuery.Proofs.Selector.Calls
import NodeQuery.Proofs.Session.History
import NodeQuery.Proofs.Forest.Partition
import NodeQuery.Proofs.Selector.Quoting
import NodeQuery.Proofs.Text.Peg
import NodeQuery.Expr.Syntax
import NodeQuery.Proofs.Expr.Acceptance
import NodeQuery.Expr.Grouping
import NodeQuery.Proofs.Expr.Brackets
import NodeQuery.Proofs.Expr.Grouping
import NodeQuery.Proofs.Forest.Opposite
import NodeQuery.Proofs.Handler.Asking
import NodeQuery.Proofs.Handler.CallOrder
import NodeQuery.Proofs.Expr.Parentheses
import NodeQuery.Proofs.Function.Position
import NodeQuery.Proofs.Expr.Merging
import NodeQuery.Proofs.Expr.Descent
import NodeQuery.Proofs.Handler.Verdict
import NodeQuery.Proofs.Function.Comparison
import NodeQuery.Proofs.Comparison
import NodeQuery.Proofs.Expr.Failure
import NodeQuery.Proofs.Selector.Kind
import NodeQuery.Proofs.Selector.Absence
import NodeQuery.Proofs.Selector.Anywhere
import NodeQuery.Proofs.Selector.Words
import NodeQuery.Selector.Syntax
import NodeQuery.Proofs.Selector.Acceptance
import NodeQuery.Proofs.Selector.Comments
import NodeQuery.Proofs.Selector.Outcome
import NodeQuery.Proofs.Function.Registry
import NodeQuery.Proofs.Numeral.Reading
import NodeQuery.Proofs.Function.Substring
import NodeQuery.Proofs.Function.Identifier
import NodeQuery.Proofs.Numeral.Printing
import NodeQuery.Proofs.HostValue
import NodeQuery.Proofs.Forest.Numbering
import NodeQuery.Proofs.Forest.Steps
import NodeQuery.Proofs.Forest.Walks
import NodeQuery.Proofs.Session.Growth
import NodeQuery.Proofs.NodeSet.Union
import NodeQuery.Proofs.Text.Normalized
import NodeQuery.Proofs.Program.Stages
import NodeQuery.Proofs.Program.Balance
import NodeQuery.Proofs.Forest.Severed
import NodeQuery.Proofs.Expr.Downward
import NodeQuery.Proofs.Session.Texts
