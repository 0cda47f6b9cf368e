import Mathlib.Logic.ExistsUnique
import ScopedFormulas.Expr.Build
import ScopedFormulas.Proofs.Evaluation.Interchange
import ScopedFormulas.Proofs.Evaluation.Targets

namespace ScopedFormulas

inductive StopsAt (v : Value) (targets : List QualifiedName) (env : Environment) (run : Run Value) :
    Nat → Prop where
  | intro {before later : List QualifiedName} {target : QualifiedName} {written : Environment}
    {cause : AssignError} (split : targets = before ++ target :: later)
    (writes : Writes v before env written)
    (refused : written.assign target.segments v = (.error cause, run.env))
    (result : run.result = .error (.error (.assignment target.segments cause)))
    (lookups : ∀ name scope, run.env.lookup? name scope = written.lookup? name scope) :
    StopsAt v targets env run before.length

variable {v : Value} {target : QualifiedName} {targets before later : List QualifiedName}
  {env written after : Environment} {cause : AssignError} {run : Run Value}

theorem Writes.assign_ok (h : Writes v (before ++ target :: later) env after)
    (hbefore : Writes v before env written) : (written.assign target.segments v).1 = .ok () := by
  obtain ⟨middle, hmiddle, hrest⟩ := h.exists_of_append
  obtain rfl := hmiddle.unique hbefore
  cases hrest with
  | cons write rest => rw [write]

theorem lookup?_of_refused (h : written.assign target.segments v = (.error cause, after))
    (name : String) (scope : Option Value) :
    after.lookup? name scope = written.lookup? name scope := by
  have herror : (written.assign target.segments v).1 = .error cause := by rw [h]
  have hindistinct := Environment.Indistinct.of_assign_error herror
  rw [h] at hindistinct
  exact (Environment.Indistinct.interchange.lookup? hindistinct name scope).symm

-- The targets before the one that stops a run are all written, so none of them can have stopped it.
theorem StopsAt.le {k l : Nat} (h : StopsAt v targets env run k)
    (h' : StopsAt v targets env run l) : k ≤ l := by
  obtain @⟨before, later, target, written, cause, rfl, writes, -, -, -⟩ := h
  obtain @⟨before', later', target', written', cause', split, writes', refused', -, -⟩ := h'
  rcases List.append_eq_append_iff.mp split with ⟨gap, rfl, -⟩ | ⟨gap, rfl, htail⟩
  · rw [List.length_append]
    exact Nat.le_add_right _ _
  · cases gap with
    | nil => exact Nat.le_of_eq (congrArg List.length (List.append_nil before'))
    | cons first gap =>
      obtain ⟨rfl, -⟩ := List.cons.inj htail
      have hok := writes.assign_ok writes'
      rw [refused'] at hok
      cases hok

theorem StopsAt.unique {k l : Nat} (h : StopsAt v targets env run k)
    (h' : StopsAt v targets env run l) : k = l := Nat.le_antisymm (h.le h') (h'.le h)

namespace Expr

variable {call : Caller} {e : Expr} {span : Span}

theorem evalWith_assign_of_error {s : Stop} (h : (e.evalWith call env).result = .error s) :
    (assign targets e span).evalWith call env =
      ⟨.error s, (e.evalWith call env).env, (e.evalWith call env).calls⟩ := by
  rw [evalWith, EvalM.bind_of_error h]

theorem evalWith_assign_of_written (h : (e.evalWith call env).result = .ok v)
    (hall : assignAll v targets (e.evalWith call env).env = ⟨.ok (), after, []⟩) :
    (assign targets e span).evalWith call env = ⟨.ok v, after, (e.evalWith call env).calls⟩ := by
  rw [evalWith, EvalM.bind_of_ok h, EvalM.bind_of_ok (by rw [hall]), hall]
  exact congrArg (Run.mk _ _) (List.append_nil _)

theorem evalWith_assign_of_refused {s : Stop} (h : (e.evalWith call env).result = .ok v)
    (hall : assignAll v targets (e.evalWith call env).env = ⟨.error s, after, []⟩) :
    (assign targets e span).evalWith call env = ⟨.error s, after, (e.evalWith call env).calls⟩ := by
  rw [evalWith, EvalM.bind_of_ok h, EvalM.bind_of_error (by rw [hall]), hall]
  exact congrArg (Run.mk _ _) (List.append_nil _)

theorem stopsAt_of_error {s : Stop} (h : (e.evalWith call env).result = .ok v)
    (herror : ((assign targets e span).evalWith call env).result = .error s) :
    ((assign targets e span).evalWith call env).calls = (e.evalWith call env).calls ∧
      ∃ k, StopsAt v targets (e.evalWith call env).env
        ((assign targets e span).evalWith call env) k := by
  have hassigns := assignsAll v targets (e.evalWith call env).env
  generalize hall : assignAll v targets (e.evalWith call env).env = run at hassigns
  cases hassigns with
  | all writes =>
    rw [evalWith_assign_of_written h hall] at herror
    cases herror
  | @refused before later target written after cause split writes refused =>
    rw [evalWith_assign_of_refused h hall]
    exact ⟨rfl, before.length, split, writes, refused, rfl, lookup?_of_refused refused⟩

end Expr

theorem assign_stops_once (call : Caller) (env : Environment)
    (targets : List QualifiedName) (e : Expr) (span : Span) :
    let value := e.evalWith call env
    let run := (Expr.assign targets e span).evalWith call env
    (∀ s, value.result = .error s → run = ⟨.error s, value.env, value.calls⟩) ∧
    ∀ v s, value.result = .ok v → run.result = .error s →
      run.calls = value.calls ∧ ∃! k, StopsAt v targets value.env run k := by
  intro value run
  constructor
  · intro s herror
    exact Expr.evalWith_assign_of_error herror
  · intro v s hvalue herror
    obtain ⟨hcalls, k, hstops⟩ := Expr.stopsAt_of_error hvalue herror
    exact ⟨hcalls, k, hstops, fun l hl => hl.unique hstops⟩

-- The first target is written, the second write fails in a copy of the namespace, and the third is
-- left alone.
theorem assign_stops_once_copied :
    let env := ((Environment.root false).bind "ns" (.group (.ofList [("x", .text "1")]))).push false
    let inside := QualifiedName.member (.member (.root (.synthetic "ns")) (.synthetic "x"))
      (.synthetic "y")
    let targets := [.root (.synthetic "a"), inside, .root (.synthetic "b")]
    let e := Build.string "'2'"
    ∀ call : Caller,
      let run := (Expr.assign targets e .synthetic).evalWith call env
      (e.evalWith call env).result = .ok (.text "2") ∧
        run.result = .error (.error (.assignment ["ns", "x", "y"] (.notNamespace "x" .text))) ∧
        run.env.scope.bindings.size = 2 ∧
        ∃! k, StopsAt (.text "2") targets (e.evalWith call env).env run k := by
  intro env inside targets e call run
  have hvalue : (e.evalWith call env).result = .ok (.text "2") := rfl
  have herror : run.result =
      .error (.error (.assignment ["ns", "x", "y"] (.notNamespace "x" .text))) := rfl
  obtain ⟨-, hstops⟩ := assign_stops_once call env targets e .synthetic
  exact ⟨hvalue, herror, rfl, (hstops _ _ hvalue herror).2⟩

end ScopedFormulas
