import ScopedFormulas.Expr.Build
import ScopedFormulas.Proofs.Environment.Resolution
import ScopedFormulas.Proofs.Evaluation.Targets

namespace ScopedFormulas

namespace Environment

variable {env after : Environment} {v w : Value} {p q : List String}

end Environment

variable {env : Environment} {v : Value} {target : QualifiedName} {targets : List QualifiedName}

def Value.isMethod : Value → Bool
  | .function f => f.isMethod
  | _ => false

theorem Value.bindMethod_of_not_method (scope : Value) (h : v.isMethod = false) :
    scope.bindMethod v = v := by
  cases v with
  | function f =>
    have hf : f.isMethod = false := h
    rw [bindMethod, hf]
    rfl
  | _ => rfl

namespace Expr

inductive ReadsAs (call : Caller) (env : Environment) (v : Value) : Expr → Prop where
  | name {ident : Ident} {span : Span}
    (run : (name ident span).evalWith call env = ⟨.ok v, env, []⟩) :
    ReadsAs call env v (name ident span)
  | member {rest : Expr} {ident : Ident} {span : Span} {scope : Namespace}
    (inner : rest.evalWith call env = ⟨.ok (.group scope), env, []⟩)
    (run : (member rest ident span).evalWith call env =
      ⟨.ok ((Value.group scope).bindMethod v), env, []⟩) :
    ReadsAs call env v (member rest ident span)

theorem ReadsAs.group {call : Caller} {scope : Namespace} {e : Expr}
    (h : ReadsAs call env (.group scope) e) :
    e.evalWith call env = ⟨.ok (.group scope), env, []⟩ := by
  cases h with
  | name run => exact run
  | member inner run => exact run

end Expr

end ScopedFormulas
