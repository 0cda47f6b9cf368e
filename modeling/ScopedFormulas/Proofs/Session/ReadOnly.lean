import ScopedFormulas.Expr.Build
import ScopedFormulas.Proofs.Evaluation.Sequence
import ScopedFormulas.Proofs.Evaluation.Unwritten
import ScopedFormulas.Proofs.Session.Basic

namespace ScopedFormulas

open Comparison

def Rules.seedless : Rules := ⟨fun _ => True, fun _ => True, fun _ => False⟩

def Operation.isEvaluation : Operation → Bool
  | evaluate _ | evaluateAll _ | check .. => true
  | _ => false

variable {library : Library} {env : Environment}

theorem Environment.assign_readOnly (h : env.scope.readOnly = true) (path : List String)
    (v : Value) : env.assign path v = (.error .readOnly, env) := (Assigns.readOnly h).eq

theorem Environment.Confined.lockstep_readOnly (hconf : env.Confined library .seedless)
    (h : env.scope.readOnly = true) :
    ∃ c : Conduct, (∀ n, c.node n) ∧ library.Keeps c ∧
      c.Lockstep fun e e' => e = env ∧ e' = env := by
  obtain ⟨c, hrules, hlib, hlockstep⟩ := hconf.lockstep (.refl env) (fun _ => trivial)
    (fun v _ path => ⟨_, env.assign_readOnly h path v, env.assign_readOnly h path v⟩)
    fun _ hseeded => hseeded
  refine ⟨c, fun n => ?_, hlib, hlockstep⟩
  rw [hrules]
  trivial

theorem eval_env_of_readOnly (h : env.scope.readOnly = true)
    (hconf : env.Confined library .seedless) (fuel : Nat) (e : Expr) :
    (e.eval library fuel env).env = env := by
  obtain ⟨c, hnode, hlib, hlockstep⟩ := hconf.lockstep_readOnly h
  have hsim := hlockstep.eval hlib fuel fun n (_ : n ∈ e.nodes) => hnode n
  obtain ⟨result, calls, hrun, -⟩ := exists_run_of_simulates hsim
  rw [hrun]

theorem evalAll_env_of_readOnly (h : env.scope.readOnly = true)
    (hconf : env.Confined library .seedless) (fuel : Nat) (formulas : List Expr) :
    (evalAll library fuel formulas env).env = env := by
  obtain ⟨c, hnode, hlib, hlockstep⟩ := hconf.lockstep_readOnly h
  have hsim := hlockstep.evalAll hlib fuel fun e (_ : e ∈ formulas) n _ => hnode n
  obtain ⟨result, calls, hrun, -⟩ := exists_run_of_simulates hsim
  rw [hrun]

theorem Operation.env_of_readOnly (h : env.scope.readOnly = true)
    (hconf : env.Confined library .seedless) (fuel : Nat) {op : Operation}
    (hop : op.isEvaluation = true) : (op.perform library fuel env).2 = env := by
  cases op with
  | evaluate formula => exact eval_env_of_readOnly h hconf fuel formula
  | evaluateAll formulas => exact evalAll_env_of_readOnly h hconf fuel formulas
  | check expected formulas =>
    simp only [perform, check_eq, CheckOutcome.ofRun]
    exact evalAll_env_of_readOnly h hconf fuel formulas
  | _ => cases hop

theorem perform_readOnly (h : env.scope.readOnly = true)
    (hconf : env.Confined library .seedless) (fuel : Nat) :
    (∀ e : Expr, (e.eval library fuel env).env = env) ∧
      ∀ ops : List Operation, (∀ op ∈ ops, op.isEvaluation = true) →
        perform library fuel ops env = (ops.map fun op => (op.perform library fuel env).1, env) := by
  refine ⟨eval_env_of_readOnly h hconf fuel, fun ops hops => ?_⟩
  induction ops with
  | nil => rfl
  | cons op ops ih =>
    obtain ⟨hop, hrest⟩ := List.forall_mem_cons.mp hops
    rw [perform, op.env_of_readOnly h hconf fuel hop, ih hrest]
    rfl

-- Functions that assign, evaluate an assignment and call their argument; no way leads to the last.
theorem perform_readOnly_natives :
    let library : Library := fun id args =>
      match id.index, args with
      | 0, _ => .assign ["x"] (.bool true) fun _ => .done (.ok (.bool false))
      | 1, _ => .evaluate (Build.assign [.root (.synthetic "x")] (Build.number 1)) .done
      | 2, .function f :: rest => .call f rest .done
      | 2, _ => .done (.ok (.bool false))
      | _, _ => .seed "x" (.bool true) (.done (.ok (.bool true)))
    let env := (((Environment.root true).bind "put" (.function (.plain "put" ⟨0⟩))).bind
      "run" (.function (.plain "run" ⟨1⟩))).bind "apply" (.function (.plain "apply" ⟨2⟩))
    let formula := Build.call (Build.name "apply") [Build.name "put"]
    env.scope.readOnly = true ∧ env.Confined library .seedless ∧
      ∀ fuel, (formula.eval library fuel env).env = env ∧
        (perform library fuel [.evaluate formula, .evaluate formula] env).2 = env := by
  intro library env formula
  have hflag : env.scope.readOnly = true := rfl
  have hplain : ∀ (name : String) (i : Nat), i < 3 →
      (Value.function (.plain name ⟨i⟩)).Within fun id => id.index < 3 :=
    fun name i hi => .function hi fun v hv => nomatch hv
  have hconf : env.Confined library .seedless := by
    refine ⟨fun id => id.index < 3, fun name v hv => ?_, fun t _ name f hf => ?_, ?_⟩
    · simp only [env, Environment.name?_bind] at hv
      split at hv
      · exact Option.some.inj hv ▸ hplain _ 2 (by decide)
      · split at hv
        · exact Option.some.inj hv ▸ hplain _ 1 (by decide)
        · split at hv
          · exact Option.some.inj hv ▸ hplain _ 0 (by decide)
          · cases hv
    · cases hf
    · rintro ⟨index⟩ args hindex hargs
      match index, hindex with
      | 0, _ => exact .assign trivial fun answer => .done fun v hv => Except.ok.inj hv ▸ .bool false
      | 1, _ => exact .evaluate (fun _ _ => trivial) fun answer hanswer => .done hanswer
      | 2, _ =>
        cases args with
        | nil => exact .done fun v hv => Except.ok.inj hv ▸ .bool false
        | cons first rest =>
          obtain ⟨hfirst, hrest⟩ := List.forall_mem_cons.mp hargs
          cases first with
          | function f => exact .call hfirst hrest fun answer hanswer => .done hanswer
          | _ => exact .done fun v hv => Except.ok.inj hv ▸ .bool false
  refine ⟨hflag, hconf, fun fuel => ?_⟩
  obtain ⟨heval, hsession⟩ := perform_readOnly hflag hconf fuel
  refine ⟨heval formula, ?_⟩
  rw [hsession [.evaluate formula, .evaluate formula] (by decide)]

end ScopedFormulas
