import ScopedFormulas.Proofs.Check.Requirements
import ScopedFormulas.Proofs.Check.StandIns
import ScopedFormulas.Proofs.Environment.Independence
import ScopedFormulas.Proofs.Environment.Refusal
import ScopedFormulas.Proofs.Evaluation.CallOrder
import ScopedFormulas.Proofs.Evaluation.Faults
import ScopedFormulas.Proofs.Evaluation.Hygiene
import ScopedFormulas.Proofs.Evaluation.RefusedTarget
import ScopedFormulas.Proofs.Evaluation.Spans
import ScopedFormulas.Proofs.Expr.Joins
import ScopedFormulas.Proofs.Expr.Literals
import ScopedFormulas.Proofs.Expr.Paths
import ScopedFormulas.Proofs.Json.MemberOrder
import ScopedFormulas.Proofs.Number.Modulo
import ScopedFormulas.Proofs.Operator.Comparisons
import ScopedFormulas.Proofs.Session.FailedAssignment
import ScopedFormulas.Proofs.Session.OuterScopes
import ScopedFormulas.Proofs.Session.ReadOnly
import ScopedFormulas.Proofs.Similarity.Evaluation
import ScopedFormulas.Proofs.Value.Repetition
