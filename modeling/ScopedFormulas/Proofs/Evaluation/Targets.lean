import ScopedFormulas.Proofs.Evaluation.Comparison

namespace ScopedFormulas

inductive Writes (v : Value) : List QualifiedName → Environment → Environment → Prop where
  | nil (env : Environment) : Writes v [] env env
  | cons {target : QualifiedName} {targets : List QualifiedName} {env next after : Environment}
    (write : env.assign target.segments v = (.ok (), next)) (rest : Writes v targets next after) :
    Writes v (target :: targets) env after

inductive AssignsAll (v : Value) (targets : List QualifiedName) (env : Environment) :
    Run Unit → Prop where
  | all {after : Environment} (writes : Writes v targets env after) :
    AssignsAll v targets env ⟨.ok (), after, []⟩
  | refused {before later : List QualifiedName} {target : QualifiedName}
    {written after : Environment} {cause : AssignError}
    (split : targets = before ++ target :: later) (writes : Writes v before env written)
    (refused : written.assign target.segments v = (.error cause, after)) :
    AssignsAll v targets env ⟨.error (.error (.assignment target.segments cause)), after, []⟩

variable {v : Value} {target : QualifiedName} {targets before later : List QualifiedName}
  {env next written after : Environment} {cause : AssignError}

theorem assignAll_cons_of_ok (h : env.assign target.segments v = (.ok (), next)) :
    assignAll v (target :: targets) env = assignAll v targets next := by
  have hwrite : EvalM.modify (fun env => env.assign target.segments v) env =
      ⟨.ok (.ok ()), next, []⟩ := by
    rw [EvalM.modify, h]
  rw [assignAll, EvalM.bind_of_ok (by rw [hwrite]), hwrite]
  rfl

theorem assignAll_cons_of_error (h : env.assign target.segments v = (.error cause, next)) :
    assignAll v (target :: targets) env =
      ⟨.error (.error (.assignment target.segments cause)), next, []⟩ := by
  have hwrite : EvalM.modify (fun env => env.assign target.segments v) env =
      ⟨.ok (.error cause), next, []⟩ := by
    rw [EvalM.modify, h]
  rw [assignAll, EvalM.bind_of_ok (by rw [hwrite]), hwrite]
  rfl

theorem assignsAll (v : Value) (targets : List QualifiedName) (env : Environment) :
    AssignsAll v targets env (assignAll v targets env) := by
  induction targets generalizing env with
  | nil => exact .all (.nil env)
  | cons target targets ih =>
    rcases hwrite : env.assign target.segments v with ⟨result, next⟩
    cases result with
    | ok =>
      have hrest := ih next
      rw [assignAll_cons_of_ok hwrite]
      generalize assignAll v targets next = run at hrest ⊢
      cases hrest with
      | all writes => exact .all (.cons hwrite writes)
      | refused split writes refused =>
        exact .refused (congrArg (List.cons target) split) (.cons hwrite writes) refused
    | error cause =>
      rw [assignAll_cons_of_error hwrite]
      exact .refused rfl (.nil env) hwrite

theorem assignAll_of_refused (hwrites : Writes v before env written)
    (h : written.assign target.segments v = (.error cause, after)) :
    assignAll v (before ++ target :: later) env =
      ⟨.error (.error (.assignment target.segments cause)), after, []⟩ := by
  induction hwrites with
  | nil => exact assignAll_cons_of_error h
  | cons write _ ih => exact (assignAll_cons_of_ok write).trans (ih h)

namespace Writes

theorem exists_of_append (h : Writes v (before ++ later) env after) :
    ∃ middle, Writes v before env middle ∧ Writes v later middle after := by
  induction before generalizing env with
  | nil => exact ⟨env, .nil env, h⟩
  | cons target before ih =>
    cases h with
    | cons write rest =>
      obtain ⟨middle, hbefore, hlater⟩ := ih rest
      exact ⟨middle, .cons write hbefore, hlater⟩

theorem unique {other : Environment} (h : Writes v targets env after)
    (h' : Writes v targets env other) : after = other := by
  induction h with
  | nil =>
    cases h' with
    | nil => rfl
  | cons write _ ih =>
    cases h' with
    | cons write' rest' =>
      cases write.symm.trans write'
      exact ih rest'

end Writes

end ScopedFormulas
