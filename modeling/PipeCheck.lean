import PipeCheck.Main
import PipeCheck.Proofs.Unification.Termination
import PipeCheck.Proofs.Reading.RoundTrip
import PipeCheck.Proofs.Application.Capture
import PipeCheck.Proofs.Typing.Reports
import PipeCheck.Proofs.Typing.Failures
import PipeCheck.Proofs.Memo.Permanence
import PipeCheck.Proofs.Typing.ContextFree
import PipeCheck.Proofs.Typing.Coverage
import PipeCheck.Proofs.Typing.Pruning
import PipeCheck.Proofs.Typing.ElementOrder
import PipeCheck.Proofs.Names.Binding
import PipeCheck.Proofs.Expr.Encoding
import PipeCheck.Proofs.Command.ExitStatus
import PipeCheck.Proofs.Store.Equality
import PipeCheck.Proofs.Typing.Currying
import PipeCheck.Proofs.Reading.VariableScopes
import PipeCheck.Proofs.Reading.ReadErrors
import PipeCheck.Proofs.Typing.StrictLists
import PipeCheck.Proofs.Names.Redeclaration
import PipeCheck.Proofs.Diagnostic.Bounds
import PipeCheck.Proofs.Text.Suggestions
import PipeCheck.Proofs.Names.Containment
