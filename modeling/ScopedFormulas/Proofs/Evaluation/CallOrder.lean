import ScopedFormulas.Expr.Build
import ScopedFormulas.Proofs.Evaluation.Comparison
import ScopedFormulas.Proofs.Expr.Nodes

namespace ScopedFormulas

/-- Whatever it is answered, the body evaluates no formula and calls no function. -/
inductive Action.Solitary : Action → Prop where
  | done (result : Except EvalError Value) : Solitary (.done result)
  | assign {path : List String} {v : Value} {next : Except AssignError Unit → Action}
    (rest : ∀ answer, Solitary (next answer)) : Solitary (.assign path v next)
  | seed {name : String} {v : Value} {next : Action} (rest : Solitary next) :
    Solitary (.seed name v next)
  | lookup {name : String} {scope : Option Value} {next : Option Value → Action}
    (rest : ∀ found, Solitary (next found)) : Solitary (.lookup name scope next)

/-- The function is given as many values as the node has arguments, after its receiver if it has
one. -/
inductive Fires : Expr → Invocation → Prop where
  | intro {callee : Expr} {args : List Expr} {span : Span} {f : Function} {values : List Value}
    (length : values.length = args.length) :
    Fires (.call callee args span) ⟨f, f.arguments values⟩

/-- The nodes fire in turn; a run that stops may stop between any two. -/
inductive Run.Logs {α : Type} (nodes : List Expr) (r : Run α) : Prop where
  | all {a : α} (result : r.result = .ok a) (calls : List.Forall₂ Fires nodes r.calls)
  | front {s : Stop} {fired : List Expr} (result : r.result = .error s) (before : fired <+: nodes)
    (calls : List.Forall₂ Fires fired r.calls)

namespace EvalM

def Logs {α : Type} (solitary : Invocation → Prop) (nodes : List Expr) (x : EvalM α) : Prop :=
  ∀ env, (∀ call ∈ (x env).calls, solitary call) → (x env).Logs nodes

namespace Logs

variable {α β : Type} {solitary : Invocation → Prop} {front back : List Expr} {x : EvalM α}
  {f : α → EvalM β}

theorem of_calls (h : ∀ env, (x env).calls = []) : Logs solitary [] x := by
  intro env _
  have hcalls : List.Forall₂ Fires [] (x env).calls := by
    rw [h env]
    exact .nil
  cases hresult : (x env).result with
  | ok a => exact .all hresult hcalls
  | error s => exact .front hresult List.nil_prefix hcalls

theorem pure (a : α) : Logs solitary [] (Pure.pure a : EvalM α) := of_calls fun _ => rfl

theorem read (f : Environment → α) : Logs solitary [] (EvalM.read f) := of_calls fun _ => rfl

theorem modify (f : Environment → α × Environment) : Logs solitary [] (EvalM.modify f) :=
  of_calls fun _ => rfl

theorem ofExcept (result : Except EvalError α) : Logs solitary [] (EvalM.ofExcept result) :=
  of_calls fun _ => by cases result <;> rfl

theorem stop (s : Stop) : Logs solitary front (EvalM.stop s : EvalM α) :=
  fun _ _ => .front rfl List.nil_prefix .nil

theorem bind (hx : Logs solitary front x)
    (hf : ∀ env a, (x env).result = .ok a → Logs solitary back (f a)) :
    Logs solitary (front ++ back) (x >>= f) := by
  intro env hcalls
  cases hresult : (x env).result with
  | ok a =>
    rw [bind_of_ok hresult] at hcalls ⊢
    obtain ⟨hfirst, hsecond⟩ := List.forall_mem_append.mp hcalls
    cases hx env hfirst with
    | front result => cases hresult.symm.trans result
    | all _ calls =>
      cases hf env a hresult _ hsecond with
      | all result' calls' => exact .all result' (List.rel_append calls calls')
      | front result' before' calls' =>
        exact .front result' ((List.prefix_append_right_inj front).mpr before')
          (List.rel_append calls calls')
  | error s =>
    rw [bind_of_error hresult] at hcalls ⊢
    cases hx env hcalls with
    | all result => cases hresult.symm.trans result
    | front result before calls =>
      exact .front rfl (before.trans (List.prefix_append front back)) calls

end Logs

end EvalM

open EvalM

variable {solitary : Invocation → Prop} {call : Caller}

namespace Expr

end Expr

def Library.Solitary (library : Library) (made : Invocation) : Prop :=
  (library made.function.body made.args).Solitary

end ScopedFormulas
