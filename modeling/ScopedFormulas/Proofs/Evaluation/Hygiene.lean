import ScopedFormulas.Expr.Build
import ScopedFormulas.Proofs.Evaluation.Lockstep
import ScopedFormulas.Proofs.Value.Clean

namespace ScopedFormulas

open Comparison

variable {library : Library}

end ScopedFormulas
