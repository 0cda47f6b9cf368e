import ScopedFormulas.Environment.Basic

/-!
Runs: what comes of a computation that reads and writes an environment and calls functions. What
it wrote and whom it called stays, also when it fails.
-/

namespace ScopedFormulas

/-- A native function and what its body was given, a bound receiver first. -/
structure Invocation where
  function : Function
  args : List Value

/-- Why a run has no value. Only calls nested deeper than allowed run out of fuel. -/
inductive Stop where
  | error (cause : EvalError)
  | outOfFuel

structure Run (α : Type) where
  result : Except Stop α
  env : Environment
  calls : List Invocation

def EvalM (α : Type) := Environment → Run α

namespace EvalM

variable {α β : Type}

protected def pure (a : α) : EvalM α := fun env => ⟨.ok a, env, []⟩

def stop (s : Stop) : EvalM α := fun env => ⟨.error s, env, []⟩

def fail (cause : EvalError) : EvalM α := stop (.error cause)

protected def bind (x : EvalM α) (f : α → EvalM β) : EvalM β := fun env =>
  let first := x env
  match first.result with
  | .ok a =>
    let second := f a first.env
    ⟨second.result, second.env, first.calls ++ second.calls⟩
  | .error s => ⟨.error s, first.env, first.calls⟩

instance : Monad EvalM where
  pure := EvalM.pure
  bind := EvalM.bind

def ofExcept : Except EvalError α → EvalM α
  | .ok a => Pure.pure a
  | .error cause => fail cause

def read (f : Environment → α) : EvalM α := fun env => ⟨.ok (f env), env, []⟩

def modify (f : Environment → α × Environment) : EvalM α := fun env =>
  let after := f env
  ⟨.ok after.1, after.2, []⟩

def record (call : Invocation) : EvalM Unit := fun env => ⟨.ok (), env, [call]⟩

def attempt (x : EvalM α) : EvalM (Except EvalError α) := fun env =>
  let run := x env
  match run.result with
  | .ok a => ⟨.ok (.ok a), run.env, run.calls⟩
  | .error (.error cause) => ⟨.ok (.error cause), run.env, run.calls⟩
  | .error .outOfFuel => ⟨.error .outOfFuel, run.env, run.calls⟩

end EvalM

end ScopedFormulas
