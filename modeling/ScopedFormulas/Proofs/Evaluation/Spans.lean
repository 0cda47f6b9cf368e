import ScopedFormulas.Expr.Build
import ScopedFormulas.Proofs.Evaluation.Comparison
import ScopedFormulas.Proofs.Expr.Spans

namespace ScopedFormulas

open Comparison

def Stop.eraseSpans : Stop → Stop
  | error cause => error cause.eraseSpans
  | outOfFuel => outOfFuel

def upToSpans : Comparison where
  env := Eq
  stop s t := s.eraseSpans = t.eraseSpans
  excused _ := False

theorem upToSpans_refl {α : Type} (x : EvalM α) : upToSpans.Simulates Eq x x := by
  rintro env _ rfl
  cases hresult : (x env).result with
  | ok a => exact .ok hresult hresult rfl rfl rfl
  | error s => exact .stop hresult hresult rfl rfl rfl

theorem assignAll_eraseSpans (v : Value) (targets : List QualifiedName) :
    assignAll v (targets.map (·.eraseSpans)) = assignAll v targets := by
  induction targets with
  | nil => rfl
  | cons target targets ih =>
    rw [List.map_cons, assignAll, assignAll, ih, QualifiedName.segments_eraseSpans]

namespace Expr

variable {call : Caller}

theorem callValue_eraseSpans (callee : Expr) (target : Value) (args : List Value) :
    upToSpans.Simulates Eq (callValue call callee target args)
      (callValue call callee.eraseSpans target args) := by
  cases target with
  | function f => exact upToSpans_refl _
  | _ =>
    apply Simulates.stop
    simp only [upToSpans, Stop.eraseSpans, EvalError.eraseSpans, eraseSpans_eraseSpans]

theorem evalArgs_eraseSpans {args : List Expr}
    (h : ∀ arg ∈ args, upToSpans.Simulates Eq (arg.evalWith call) (arg.eraseSpans.evalWith call)) :
    upToSpans.Simulates Eq (evalArgs call args) (evalArgs call (eraseArgSpans args)) := by
  induction args with
  | nil => exact .pure rfl
  | cons arg args ih =>
    obtain ⟨harg, hrest⟩ := List.forall_mem_cons.mp h
    apply Simulates.bind harg
    rintro v _ rfl
    apply Simulates.bind (ih hrest)
    rintro vs _ rfl
    exact .pure rfl

theorem evalWith_eraseSpans (call : Caller) (e : Expr) :
    upToSpans.Simulates Eq (e.evalWith call) (e.eraseSpans.evalWith call) := by
  induction e with
  | number | string => exact .pure rfl
  | target path span =>
    apply Simulates.pure
    rw [QualifiedName.segments_eraseSpans]
  | unary op operand span ih =>
    apply Simulates.bind ih
    rintro v _ rfl
    exact upToSpans_refl _
  | binary op left right span ihl ihr =>
    apply Simulates.bind ihl
    rintro l _ rfl
    apply Simulates.bind ihr
    rintro r _ rfl
    exact upToSpans_refl _
  | name ident span =>
    apply Simulates.bind (upToSpans_refl _)
    rintro found _ rfl
    cases found with
    | some v => exact .pure rfl
    | none => exact .stop rfl
  | member rest ident span ih =>
    apply Simulates.bind ih
    rintro scope _ rfl
    apply Simulates.bind (upToSpans_refl _)
    rintro found _ rfl
    cases found with
    | some v => exact .pure rfl
    | none => exact .stop rfl
  | call callee args span ihc iha =>
    apply Simulates.bind ihc
    rintro f _ rfl
    apply Simulates.bind (evalArgs_eraseSpans iha)
    rintro vs _ rfl
    exact callValue_eraseSpans callee f vs
  | assign targets value span ih =>
    apply Simulates.bind ih
    rintro v _ rfl
    rw [assignAll_eraseSpans]
    exact upToSpans_refl _

end Expr

def Run.eraseSpans {α : Type} (r : Run α) : Run α :=
  ⟨r.result.mapError Stop.eraseSpans, r.env, r.calls⟩

namespace Run

variable {α : Type} {r r' : Run α}

theorem eraseSpans_of_alike (h : upToSpans.Alike Eq r r') : r.eraseSpans = r'.eraseSpans := by
  rw [eraseSpans, eraseSpans]
  cases h with
  | ok left right value env calls => rw [left, right, value, show r.env = r'.env from env, calls]
  | @stop s t left right stop env calls =>
    rw [left, right, show r.env = r'.env from env, calls]
    exact congrArg (Run.mk · r'.env r'.calls) (congrArg Except.error stop)
  | excusedLeft _ excused | excusedRight _ excused => exact excused.elim

theorem ends_of_eraseSpans (h : r.eraseSpans = r'.eraseSpans) :
    r.env = r'.env ∧ r.calls = r'.calls ∧
      ((∃ a, r.result = .ok a ∧ r'.result = .ok a) ∨
        (∃ cause cause', r.result = .error (.error cause) ∧ r'.result = .error (.error cause') ∧
          cause.eraseSpans = cause'.eraseSpans) ∨
        (r.result = .error .outOfFuel ∧ r'.result = .error .outOfFuel)) := by
  rw [eraseSpans, eraseSpans, Run.mk.injEq] at h
  obtain ⟨hresult, henv, hcalls⟩ := h
  refine ⟨henv, hcalls, ?_⟩
  generalize r.result = result at hresult ⊢
  generalize r'.result = result' at hresult ⊢
  rcases result with s | a
  · rcases result' with t | b
    · have hstop : s.eraseSpans = t.eraseSpans := Except.error.inj hresult
      cases s with
      | error cause =>
        cases t with
        | error cause' => exact .inr (.inl ⟨cause, cause', rfl, rfl, Stop.error.inj hstop⟩)
        | outOfFuel => cases hstop
      | outOfFuel =>
        cases t with
        | error cause' => cases hstop
        | outOfFuel => exact .inr (.inr ⟨rfl, rfl⟩)
    · cases hresult
  · rcases result' with t | b
    · cases hresult
    · cases hresult
      exact .inl ⟨a, rfl, rfl⟩

end Run

theorem eval_eq_of_eraseSpans {e e' : Expr} (h : e.eraseSpans = e'.eraseSpans) (call : Caller)
    (env : Environment) :
    let run := e.evalWith call env
    let run' := e'.evalWith call env
    run.env = run'.env ∧ run.calls = run'.calls ∧
      ((∃ v, run.result = .ok v ∧ run'.result = .ok v) ∨
        (∃ cause cause', run.result = .error (.error cause) ∧
          run'.result = .error (.error cause') ∧ cause.eraseSpans = cause'.eraseSpans) ∨
        (run.result = .error .outOfFuel ∧ run'.result = .error .outOfFuel)) ∧
      e.text = e'.text := by
  intro run run'
  have hleft := Expr.evalWith_eraseSpans call e env env rfl
  have hright := Expr.evalWith_eraseSpans call e' env env rfl
  rw [← h] at hright
  have hrun : run.eraseSpans = run'.eraseSpans :=
    (Run.eraseSpans_of_alike hleft).trans (Run.eraseSpans_of_alike hright).symm
  obtain ⟨henv, hcalls, hends⟩ := Run.ends_of_eraseSpans hrun
  refine ⟨henv, hcalls, hends, ?_⟩
  rw [← e.text_eraseSpans, h, e'.text_eraseSpans]

-- Both fail at the call, and each reports its own callee.
theorem eval_eq_of_eraseSpans_notCallable :
    let env := ((Environment.root false).bind "f" (.text "t")).bind "x" (.bool true)
    let f := Expr.name ⟨"f", ⟨9, 10⟩⟩ ⟨9, 10⟩
    let x := Expr.name ⟨"x", ⟨11, 12⟩⟩ ⟨11, 12⟩
    let e := Expr.assign [.root ⟨"y", ⟨4, 5⟩⟩] (.call f [x] ⟨9, 13⟩) ⟨0, 13⟩
    let e' := Build.assign [.root (.synthetic "y")] (Build.call (Build.name "f") [Build.name "x"])
    e.eraseSpans = e'.eraseSpans ∧ ∀ call,
      (e.evalWith call env).result = .error (.error (.notCallable f .text)) ∧
      (e'.evalWith call env).result = .error (.error (.notCallable (Build.name "f") .text)) ∧
      (e.evalWith call env).env = (e'.evalWith call env).env ∧
      (e.evalWith call env).calls = (e'.evalWith call env).calls ∧ e.text = e'.text := by
  intro env f x e e'
  have h : e.eraseSpans = e'.eraseSpans := rfl
  refine ⟨h, fun call => ?_⟩
  obtain ⟨henv, hcalls, -, htext⟩ := eval_eq_of_eraseSpans h call env
  exact ⟨rfl, rfl, henv, hcalls, htext⟩

end ScopedFormulas
