import ScopedFormulas.Check
import ScopedFormulas.Expr.Build
import ScopedFormulas.Proofs.Evaluation.Comparison
import ScopedFormulas.Proofs.Evaluation.Messages

namespace ScopedFormulas

def CheckOutcome.ofRun (expected : ValueType) (run : Run (Option Value)) : Run CheckOutcome where
  result :=
    match run.result with
    | .ok last => .ok (.ofLast expected last)
    | .error (.error cause) => .ok (.failed cause.message)
    | .error .outOfFuel => .error .outOfFuel
  env := run.env
  calls := run.calls

namespace EvalM

variable {α : Type} {x : EvalM α} {env : Environment}

theorem attempt_of_ok {a : α} (h : (x env).result = .ok a) :
    attempt x env = ⟨.ok (.ok a), (x env).env, (x env).calls⟩ := by
  simp only [attempt, h]

theorem attempt_of_error {cause : EvalError} (h : (x env).result = .error (.error cause)) :
    attempt x env = ⟨.ok (.error cause), (x env).env, (x env).calls⟩ := by
  simp only [attempt, h]

theorem attempt_of_outOfFuel (h : (x env).result = .error .outOfFuel) :
    attempt x env = ⟨.error .outOfFuel, (x env).env, (x env).calls⟩ := by
  simp only [attempt, h]

end EvalM

open EvalM in
theorem checkWith_eq (call : Caller) (expected : ValueType) (formulas : List Expr)
    (env : Environment) :
    checkWith call expected formulas env =
      CheckOutcome.ofRun expected (evalAllWith call formulas env) := by
  suffices ∀ last env, checkWith.go call expected last formulas env =
      CheckOutcome.ofRun expected (evalAllWith.go call last formulas env) from this none env
  induction formulas with
  | nil => exact fun last env => rfl
  | cons e rest ih =>
    intro last env
    rw [checkWith.go, evalAllWith.go]
    cases hrun : (e.evalWith call env).result with
    | ok v =>
      have hattempt := attempt_of_ok hrun
      have hrest := ih (some v) (e.evalWith call env).env
      rw [bind_of_ok (a := .ok v) (by rw [hattempt]), bind_of_ok hrun, hattempt]
      dsimp only
      rw [hrest]
      rfl
    | error s =>
      rw [bind_of_error hrun]
      cases s with
      | error cause =>
        have hattempt := attempt_of_error hrun
        rw [bind_of_ok (a := .error cause) (by rw [hattempt]), hattempt]
        simp [CheckOutcome.ofRun, Pure.pure, EvalM.pure]
      | outOfFuel =>
        have hattempt := attempt_of_outOfFuel hrun
        rw [bind_of_error (s := .outOfFuel) (by rw [hattempt]), hattempt]
        rfl

theorem check_eq (library : Library) (fuel : Nat) (expected : ValueType) (formulas : List Expr)
    (env : Environment) :
    check library fuel expected formulas env =
      CheckOutcome.ofRun expected (evalAll library fuel formulas env) :=
  checkWith_eq (library.call fuel) expected formulas env

inductive Succeeds (call : Caller) :
    List Expr → Environment → List Value → Environment → List Invocation → Prop where
  | nil (env : Environment) : Succeeds call [] env [] env []
  | cons {e : Expr} {rest : List Expr} {env next after : Environment} {v : Value}
    {values : List Value} {calls more : List Invocation}
    (first : e.evalWith call env = ⟨.ok v, next, calls⟩)
    (others : Succeeds call rest next values after more) :
    Succeeds call (e :: rest) env (v :: values) after (calls ++ more)

inductive EvaluatesAll (call : Caller) (formulas : List Expr) (env : Environment) :
    Run (Option Value) → Prop where
  | all {values : List Value} {after : Environment} {calls : List Invocation}
    (each : Succeeds call formulas env values after calls) :
    EvaluatesAll call formulas env ⟨.ok values.getLast?, after, calls⟩
  | stopped {before later : List Expr} {e : Expr} {values : List Value}
    {middle after : Environment} {calls more : List Invocation} {s : Stop}
    (split : formulas = before ++ e :: later) (each : Succeeds call before env values middle calls)
    (failure : e.evalWith call middle = ⟨.error s, after, more⟩) :
    EvaluatesAll call formulas env ⟨.error s, after, calls ++ more⟩

variable {call : Caller} {formulas later : List Expr} {env after : Environment}
  {values : List Value} {calls : List Invocation}

namespace Succeeds

theorem length_eq (h : Succeeds call formulas env values after calls) :
    values.length = formulas.length := by
  induction h with
  | nil => rfl
  | cons _ _ ih => rw [List.length_cons, List.length_cons, ih]

theorem go_append (h : Succeeds call formulas env values after calls) (last : Option Value) :
    evalAllWith.go call last (formulas ++ later) env =
      let rest := evalAllWith.go call (values.getLast?.or last) later after
      ⟨rest.result, rest.env, calls ++ rest.calls⟩ := by
  induction h generalizing last with
  | nil => rfl
  | @cons e rest env next after v values calls more first others ih =>
    have hlast : (v :: values).getLast?.or last = values.getLast?.or (some v) := by
      cases values with
      | nil => rfl
      | cons w values =>
        rw [List.getLast?_cons_cons, List.getLast?_eq_some_getLast (List.cons_ne_nil w values)]
        rfl
    have hrest := ih (some v)
    rw [List.cons_append, evalAllWith.go, EvalM.bind_of_ok (by rw [first]), first, hrest, hlast]
    simp only [List.append_assoc]

theorem evalAllWith_eq (h : Succeeds call formulas env values after calls) :
    evalAllWith call formulas env = ⟨.ok values.getLast?, after, calls⟩ := by
  have hgo : evalAllWith.go call none (formulas ++ []) env = _ := h.go_append none
  rw [List.append_nil, Option.or_none] at hgo
  rw [evalAllWith, hgo]
  exact congrArg (Run.mk _ _) (List.append_nil calls)

end Succeeds

theorem succeeds_or_stops (call : Caller) (formulas : List Expr) (env : Environment) :
    (∃ values after calls, Succeeds call formulas env values after calls) ∨
      ∃ before e later values middle calls s after more, formulas = before ++ e :: later ∧
        Succeeds call before env values middle calls ∧
        e.evalWith call middle = ⟨.error s, after, more⟩ := by
  induction formulas generalizing env with
  | nil => exact .inl ⟨_, _, _, .nil env⟩
  | cons e rest ih =>
    rcases hrun : e.evalWith call env with ⟨result, next, calls⟩
    cases result with
    | error s => exact .inr ⟨[], e, rest, _, _, _, s, next, calls, rfl, .nil env, hrun⟩
    | ok v =>
      rcases ih next with ⟨_, _, _, h⟩ | ⟨before, e', later, _, _, _, s, _, _, rfl, h, hfailure⟩
      · exact .inl ⟨_, _, _, .cons hrun h⟩
      · exact .inr ⟨e :: before, e', later, _, _, _, s, _, _, rfl, .cons hrun h, hfailure⟩

theorem evaluatesAll (call : Caller) (formulas : List Expr) (env : Environment) :
    EvaluatesAll call formulas env (evalAllWith call formulas env) := by
  rcases succeeds_or_stops call formulas env with
    ⟨_, _, _, h⟩ | ⟨before, e, later, _, _, _, s, _, _, rfl, h, hfailure⟩
  · rw [h.evalAllWith_eq]
    exact .all h
  · rw [evalAllWith, h.go_append, evalAllWith.go, EvalM.bind_of_error (by rw [hfailure]), hfailure]
    exact .stopped rfl h hfailure

theorem evalAllWith_eq_none_iff :
    (evalAllWith call formulas env).result = .ok none ↔ formulas = [] := by
  constructor
  · intro h
    have hruns := evaluatesAll call formulas env
    generalize evalAllWith call formulas env = run at h hruns
    cases hruns with
    | @all values after calls each =>
      have hvalues : values = [] := List.getLast?_eq_none_iff.mp (Except.ok.inj h)
      have hlength := each.length_eq
      rw [hvalues] at hlength
      exact List.eq_nil_of_length_eq_zero hlength.symm
    | stopped => cases h
  · rintro rfl
    rfl

namespace CheckOutcome

variable {expected : ValueType} {run : Run (Option Value)}

theorem ofLast_of_type {last last' : Option Value}
    (h : last.map (·.type) = last'.map (·.type)) : ofLast expected last = ofLast expected last' := by
  cases last with
  | none =>
    cases last' with
    | none => rfl
    | some w => cases h
  | some v =>
    cases last' with
    | none => cases h
    | some w =>
      have htype : v.type = w.type := Option.some.inj h
      rw [ofLast, ofLast, htype]

theorem ofRun_eq_empty_iff : (ofRun expected run).result = .ok .empty ↔ run.result = .ok none := by
  obtain ⟨result, after, calls⟩ := run
  constructor
  · intro h
    cases result with
    | ok last =>
      cases last with
      | none => rfl
      | some v =>
        have hlast : ofLast expected (some v) = .empty := Except.ok.inj h
        rw [ofLast] at hlast
        split at hlast <;> cases hlast
    | error s => cases s <;> cases h
  · intro h
    obtain rfl : result = .ok none := h
    rfl

end CheckOutcome

/-- However functions are called, a check ends as the run of its formulas does, and a failure is
told with everything the error is about. -/
theorem check_agrees (call : Caller) (expected : ValueType) (formulas : List Expr)
    (env : Environment) :
    let run := evalAllWith call formulas env
    let checked := checkWith call expected formulas env
    checked.env = run.env ∧ checked.calls = run.calls ∧
    EvaluatesAll call formulas env run ∧
    (∀ cause, run.result = .error (.error cause) →
      checked.result = .ok (.failed cause.message) ∧
        ∀ part ∈ cause.details, Shows cause.message part) ∧
    (run.result = .error .outOfFuel → checked.result = .error .outOfFuel) ∧
    (checked.result = .ok .empty ↔ formulas = []) ∧
    (∀ v, run.result = .ok (some v) →
      (v.type = expected → checked.result = .ok .passed) ∧
      (v.type ≠ expected → checked.result = .ok (.mismatch expected v.type))) ∧
    ∀ values after calls, Succeeds call formulas env values after calls →
      ∀ formulas' env' values' after' calls',
        Succeeds call formulas' env' values' after' calls' →
        values.getLast?.map (·.type) = values'.getLast?.map (·.type) →
        checked.result = (checkWith call expected formulas' env').result := by
  intro run checked
  have hchecked : checked = CheckOutcome.ofRun expected run :=
    checkWith_eq call expected formulas env
  rw [hchecked]
  refine ⟨rfl, rfl, evaluatesAll _ _ _, ?_, ?_, ?_, ?_, ?_⟩
  · intro cause hrun
    refine ⟨?_, cause.message_shows⟩
    simp only [CheckOutcome.ofRun, hrun]
  · intro hrun
    simp only [CheckOutcome.ofRun, hrun]
  · exact CheckOutcome.ofRun_eq_empty_iff.trans evalAllWith_eq_none_iff
  · intro v hrun
    simp only [CheckOutcome.ofRun, hrun, CheckOutcome.ofLast]
    exact ⟨fun h => by rw [if_pos h], fun h => by rw [if_neg h]⟩
  · intro values after calls h formulas' env' values' after' calls' h' htype
    have hrun : run.result = .ok values.getLast? := congrArg Run.result h.evalAllWith_eq
    have hrun' : (evalAllWith call formulas' env').result = .ok values'.getLast? :=
      congrArg Run.result h'.evalAllWith_eq
    rw [checkWith_eq]
    simp only [CheckOutcome.ofRun, hrun, hrun']
    rw [CheckOutcome.ofLast_of_type htype]

-- The second formula fails: the name that the first one writes stays, and the third is not reached.
-- Without it the first and the last pass, whatever the type of the first.
theorem check_agrees_unresolved :
    let write := fun name raw => Build.assign [.root (.synthetic name)] (Build.string raw)
    let formulas := [write "a" "'1'", Build.name "c", write "b" "'2'"]
    let shorter := [Build.target (.root (.synthetic "d")), write "b" "'2'"]
    let env := Environment.root false
    ∀ call : Caller,
      (evalAllWith call formulas env).result = .error (.error (.unresolved (.synthetic "c"))) ∧
      (checkWith call .text formulas env).result =
        .ok (.failed (EvalError.unresolved (.synthetic "c")).message) ∧
      Shows (EvalError.unresolved (.synthetic "c")).message "c" ∧
      (checkWith call .text formulas env).env = (evalAllWith call formulas env).env ∧
      (evalAllWith call formulas env).env.scope.bindings.size = 1 ∧
      (evalAllWith call shorter env).result = .ok (some (.text "2")) ∧
      (checkWith call .text shorter env).result = .ok .passed ∧
      (checkWith call .bool shorter env).result = .ok (.mismatch .bool .text) ∧
      (checkWith call .bool shorter env).result =
        (checkWith call .bool [write "b" "'2'"] env).result := by
  intro write formulas shorter env call
  have hfails : (evalAllWith call formulas env).result =
      .error (.error (.unresolved (.synthetic "c"))) := rfl
  have hends : (evalAllWith call shorter env).result = .ok (some (.text "2")) := rfl
  obtain ⟨henv, -, -, hfailed, -⟩ := check_agrees call .text formulas env
  obtain ⟨-, -, -, -, -, -, htext, -⟩ := check_agrees call .text shorter env
  obtain ⟨-, -, -, -, -, -, hbool, hlast⟩ := check_agrees call .bool shorter env
  have hwrite : (write "b" "'2'").evalWith call env =
      ⟨.ok (.text "2"), env.bind "b" (.text "2"), []⟩ := rfl
  have hone : Succeeds call [write "b" "'2'"] env [.text "2"] _ _ := .cons hwrite (.nil _)
  have hshorter : Succeeds call shorter env [.array .text [.text "d"], .text "2"] _ _ :=
    .cons rfl hone
  obtain ⟨hmessage, hshows⟩ := hfailed _ hfails
  exact ⟨hfails, hmessage, hshows "c" List.mem_cons_self, henv, rfl, hends, (htext _ hends).1 rfl, (hbool _ hends).2 nofun,
    hlast _ _ _ hshorter _ _ _ _ _ hone rfl⟩

end ScopedFormulas
