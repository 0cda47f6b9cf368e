import ScopedFormulas.Expr.Build
import ScopedFormulas.Proofs.Evaluation.Targets
import ScopedFormulas.Proofs.Expr.Nodes
import ScopedFormulas.Proofs.Operator.Table

/-!
Where errors come from. A run of a formula that ends in an error has reached a node that raises it,
or a call of a native function that returned it, and nothing on the way out changes it.
-/

namespace ScopedFormulas

structure Run.StopsIn {α β : Type} (r : Run α) (part : Run β) (s : Stop) : Prop where
  result : r.result = .error s
  calls : part.calls <:+ r.calls

namespace Run.StopsIn

variable {α β γ : Type} {x : EvalM α} {f : α → EvalM β} {env : Environment} {part : Run γ}
  {s : Stop}

theorem refl {r : Run α} (h : r.result = .error s) : r.StopsIn r s := ⟨h, List.suffix_rfl⟩

theorem trans {r : Run α} {part' : Run β} (h : r.StopsIn part' s) (h' : part'.StopsIn part s) :
    r.StopsIn part s :=
  ⟨h.result, h'.calls.trans h.calls⟩

theorem bind_left (h : (x env).StopsIn part s) : ((x >>= f) env).StopsIn part s := by
  rw [EvalM.bind_of_error h.result]
  exact ⟨rfl, h.calls⟩

theorem bind_right {a : α} (ha : (x env).result = .ok a)
    (h : (f a (x env).env).StopsIn part s) : ((x >>= f) env).StopsIn part s := by
  rw [EvalM.bind_of_ok ha]
  exact ⟨h.result, h.calls.trans (List.suffix_append _ _)⟩

end Run.StopsIn

namespace Expr

variable {call : Caller} {e n : Expr} {env here there : Environment} {s : Stop}

/-- The run of a formula comes to a node in an environment, as everything before it has a value. -/
inductive Reaches (call : Caller) : Expr → Environment → Expr → Environment → Prop where
  | self (e : Expr) (env : Environment) : Reaches call e env e env
  | operand {op : UnaryOp} {operand n : Expr} {span : Span} {env here : Environment}
    (h : Reaches call operand env n here) : Reaches call (.unary op operand span) env n here
  | left {op : BinaryOp} {left right n : Expr} {span : Span} {env here : Environment}
    (h : Reaches call left env n here) : Reaches call (.binary op left right span) env n here
  | right {op : BinaryOp} {left right n : Expr} {span : Span} {env here : Environment} {l : Value}
    (hl : (left.evalWith call env).result = .ok l)
    (h : Reaches call right (left.evalWith call env).env n here) :
    Reaches call (.binary op left right span) env n here
  | scope {rest n : Expr} {ident : Ident} {span : Span} {env here : Environment}
    (h : Reaches call rest env n here) : Reaches call (.member rest ident span) env n here
  | callee {callee n : Expr} {args : List Expr} {span : Span} {env here : Environment}
    (h : Reaches call callee env n here) : Reaches call (.call callee args span) env n here
  | arg {callee arg n : Expr} {before later : List Expr} {span : Span} {env here : Environment}
    {f : Value} {vs : List Value} (hf : (callee.evalWith call env).result = .ok f)
    (hvs : (evalArgs call before (callee.evalWith call env).env).result = .ok vs)
    (h : Reaches call arg (evalArgs call before (callee.evalWith call env).env).env n here) :
    Reaches call (.call callee (before ++ arg :: later) span) env n here
  | value {targets : List QualifiedName} {value n : Expr} {span : Span} {env here : Environment}
    (h : Reaches call value env n here) : Reaches call (.assign targets value span) env n here

/-- The error is the node's own, as its parts have values. -/
inductive Raises (call : Caller) (env : Environment) : Expr → EvalError → Prop where
  | name {ident : Ident} {span : Span} (missing : env.name? ident.name = none) :
    Raises call env (.name ident span) (.unresolved ident)
  | member {rest : Expr} {ident : Ident} {span : Span} {v : Value}
    (hv : (rest.evalWith call env).result = .ok v)
    (missing : (rest.evalWith call env).env.member? v ident.name = none) :
    Raises call env (.member rest ident span) (.unresolved ident)
  | callee {callee : Expr} {args : List Expr} {span : Span} {v : Value} {vs : List Value}
    (hv : (callee.evalWith call env).result = .ok v)
    (hvs : (evalArgs call args (callee.evalWith call env).env).result = .ok vs)
    (type : v.type ≠ .function) :
    Raises call env (.call callee args span) (.notCallable callee v.type)
  | unary {operand : Expr} {span : Span} {v : Value}
    (hv : (operand.evalWith call env).result = .ok v) (type : v.type ≠ .bool) :
    Raises call env (.unary .not operand span)
      (.argumentType "!" [.type .bool] [v.type])
  | binary {op : BinaryOp} {left right : Expr} {span : Span} {l r : Value} {sign : String}
    {expected : Expected} {x y t : ValueType} (hl : (left.evalWith call env).result = .ok l)
    (hr : (right.evalWith call (left.evalWith call env).env).result = .ok r)
    (row : op.Row sign expected x y t) (types : ∀ s e t, ¬ op.Row s e l.type r.type t) :
    Raises call env (.binary op left right span)
      (.argumentType sign [expected, expected] [l.type, r.type])
  | trap {op : ArithmeticOp} {left right : Expr} {span : Span} {l r : Value} {cause : Trap}
    (hl : (left.evalWith call env).result = .ok l)
    (hr : (right.evalWith call (left.evalWith call env).env).result = .ok r)
    (trap : (BinaryOp.arithmetic op).eval l r = .error (.trap cause)) :
    Raises call env (.binary (.arithmetic op) left right span) (.trap cause)
  | assign {before later : List QualifiedName} {target : QualifiedName} {value : Expr} {span : Span}
    {v : Value} {written after : Environment} {cause : AssignError}
    (hv : (value.evalWith call env).result = .ok v)
    (writes : Writes v before (value.evalWith call env).env written)
    (refused : written.assign target.segments v = (.error cause, after)) :
    Raises call env (.assign (before ++ target :: later) value span)
      (.assignment target.segments cause)

inductive Invokes (call : Caller) (env : Environment) :
    Expr → Function → List Value → Environment → Prop where
  | intro {callee : Expr} {args : List Expr} {span : Span} {f : Function} {vs : List Value}
    (hf : (callee.evalWith call env).result = .ok (.function f))
    (hvs : (evalArgs call args (callee.evalWith call env).env).result = .ok vs) :
    Invokes call env (.call callee args span) f vs
      (evalArgs call args (callee.evalWith call env).env).env

inductive Ends (call : Caller) (n : Expr) (here : Environment) : Stop → Prop where
  | raised {cause : EvalError} (h : n.Raises call here cause) : Ends call n here (.error cause)
  | returned {f : Function} {args : List Value} {there : Environment} {s : Stop}
    (invokes : n.Invokes call here f args there) (h : (call f args there).result = .error s) :
    Ends call n here s

theorem Reaches.mem_nodes (h : Reaches call e env n here) : n ∈ e.nodes := by
  induction h with
  | self e => exact e.self_mem_nodes
  | @arg _ arg _ before later _ _ _ _ _ _ _ _ ih =>
    have harg : arg ∈ before ++ arg :: later := List.mem_append_cons_self
    simp [nodes, mem_argNodes harg ih]
  | _ => simp [nodes, *]

theorem evalArgs_stopsIn {before later : List Expr} {arg : Expr} {vs : List Value}
    {part : Run Value} (hvs : (evalArgs call before env).result = .ok vs)
    (h : (arg.evalWith call (evalArgs call before env).env).StopsIn part s) :
    (evalArgs call (before ++ arg :: later) env).StopsIn part s := by
  induction before generalizing vs env with
  | nil => exact .bind_left h
  | cons first before ih =>
    obtain ⟨v, hv, hrest, henv⟩ := EvalM.exists_of_bind_eq_ok hvs
    obtain ⟨ws, hws, -, henv'⟩ := EvalM.exists_of_bind_eq_ok hrest
    refine .bind_right hv (.bind_left (ih hws ?_))
    rw [evalArgs, henv, henv'] at h
    exact h

theorem Reaches.stopsIn (h : Reaches call e env n here)
    (hn : (n.evalWith call here).result = .error s) :
    (e.evalWith call env).StopsIn (n.evalWith call here) s := by
  induction h with
  | self => exact .refl hn
  | operand _ ih | left _ ih | scope _ ih | callee _ ih | value _ ih =>
    rw [evalWith]
    exact .bind_left (ih hn)
  | right hl _ ih =>
    rw [evalWith]
    exact .bind_right hl (.bind_left (ih hn))
  | arg hf hvs _ ih =>
    rw [evalWith]
    exact .bind_right hf (.bind_left (evalArgs_stopsIn hvs (ih hn)))

theorem Invokes.eval_stopsIn {f : Function} {args : List Value}
    (h : n.Invokes call here f args there) (hs : (call f args there).result = .error s) :
    (n.evalWith call here).StopsIn (call f args there) s := by
  cases h with
  | intro hf hvs =>
    rw [evalWith]
    exact .bind_right hf (.bind_right hvs (.refl hs))

theorem Raises.result_eq {cause : EvalError} (h : n.Raises call here cause) :
    (n.evalWith call here).result = .error (.error cause) := by
  cases h with
  | name missing =>
    rw [evalWith, EvalM.read_bind, missing]
    rfl
  | member hv missing =>
    rw [evalWith, EvalM.bind_of_ok hv, EvalM.read_bind, missing]
    rfl
  | @callee callee args span v vs hv hvs type =>
    rw [evalWith, EvalM.bind_of_ok hv, EvalM.bind_of_ok hvs]
    cases v with
    | function f => exact absurd rfl type
    | _ => rfl
  | unary hv type =>
    rw [evalWith, EvalM.bind_of_ok hv, UnaryOp.not_eval_of_type type]
    rfl
  | binary hl hr row types =>
    rw [evalWith, EvalM.bind_of_ok hl, EvalM.bind_of_ok hr, BinaryOp.eval_of_not_row types,
      row.symbol_eq, row.expected_eq]
    rfl
  | trap hl hr trap =>
    rw [evalWith, EvalM.bind_of_ok hl, EvalM.bind_of_ok hr, trap]
    rfl
  | assign hv writes refused =>
    rw [evalWith, EvalM.bind_of_ok hv,
      EvalM.bind_of_error (by rw [assignAll_of_refused writes refused])]

theorem Ends.result_eq (h : Ends call n here s) : (n.evalWith call here).result = .error s := by
  cases h with
  | raised h => exact h.result_eq
  | returned invokes h => exact (invokes.eval_stopsIn h).result

theorem exists_of_evalArgs_error {args : List Expr}
    (h : (evalArgs call args env).result = .error s) :
    ∃ before arg later vs, args = before ++ arg :: later ∧
      (evalArgs call before env).result = .ok vs ∧
      (arg.evalWith call (evalArgs call before env).env).result = .error s := by
  induction args generalizing env with
  | nil => cases h
  | cons first args ih =>
    rcases EvalM.of_bind_eq_error h with h | ⟨v, hv, h⟩
    · exact ⟨[], first, args, [], rfl, rfl, h⟩
    · rcases EvalM.of_bind_eq_error h with h | ⟨_, _, h⟩
      · obtain ⟨before, arg, later, vs, rfl, hvs, harg⟩ := ih h
        have hrun : evalArgs call (first :: before) env = _ :=
          (EvalM.bind_of_ok hv).trans (by rw [EvalM.bind_of_ok hvs])
        refine ⟨first :: before, arg, later, v :: vs, rfl, ?_, ?_⟩
        · rw [hrun]
          rfl
        · rw [hrun]
          exact harg
      · cases h

theorem ends_unary {op : UnaryOp} {operand : Expr} {span : Span} {v : Value}
    (hv : (operand.evalWith call env).result = .ok v)
    (h : ((Expr.unary op operand span).evalWith call env).result = .error s) :
    Ends call (.unary op operand span) env s := by
  rw [evalWith, EvalM.bind_of_ok hv] at h
  cases op with
  | not =>
    by_cases htype : v.type = .bool
    · cases v <;> cases htype
      cases h
    · rw [UnaryOp.not_eval_of_type htype] at h
      cases h
      exact .raised (.unary hv htype)

theorem ends_binary {op : BinaryOp} {left right : Expr} {span : Span} {l r : Value}
    (hl : (left.evalWith call env).result = .ok l)
    (hr : (right.evalWith call (left.evalWith call env).env).result = .ok r)
    (h : ((Expr.binary op left right span).evalWith call env).result = .error s) :
    Ends call (.binary op left right span) env s := by
  rw [evalWith, EvalM.bind_of_ok hl, EvalM.bind_of_ok hr] at h
  have houtcome := op.eval_outcome l r
  generalize heval : op.eval l r = outcome at h houtcome
  cases houtcome with
  | value => cases h
  | trap =>
    cases h
    obtain ⟨op, rfl⟩ := (BinaryOp.eval_eq_trap heval).exists_arithmetic
    exact .raised (.trap hl hr heval)
  | declined hdeclined =>
    cases h
    obtain ⟨_, _, _, hrow⟩ := op.exists_row
    exact .raised (.binary hl hr hrow (BinaryOp.not_row_iff.mpr hdeclined))

theorem ends_name {ident : Ident} {span : Span}
    (h : ((Expr.name ident span).evalWith call env).result = .error s) :
    Ends call (.name ident span) env s := by
  rcases EvalM.of_bind_eq_error h with h | ⟨found, hfound, h⟩
  · cases h
  · cases found with
    | some v => cases h
    | none =>
      cases h
      exact .raised (.name (Except.ok.inj hfound))

theorem ends_member {rest : Expr} {ident : Ident} {span : Span} {v : Value}
    (hv : (rest.evalWith call env).result = .ok v)
    (h : ((Expr.member rest ident span).evalWith call env).result = .error s) :
    Ends call (.member rest ident span) env s := by
  rw [evalWith, EvalM.bind_of_ok hv] at h
  rcases EvalM.of_bind_eq_error h with h | ⟨found, hfound, h⟩
  · cases h
  · cases found with
    | some w => cases h
    | none =>
      cases h
      exact .raised (.member hv (Except.ok.inj hfound))

theorem ends_call {callee : Expr} {args : List Expr} {span : Span} {f : Value} {vs : List Value}
    (hf : (callee.evalWith call env).result = .ok f)
    (hvs : (evalArgs call args (callee.evalWith call env).env).result = .ok vs)
    (h : ((Expr.call callee args span).evalWith call env).result = .error s) :
    Ends call (.call callee args span) env s := by
  rw [evalWith, EvalM.bind_of_ok hf, EvalM.bind_of_ok hvs] at h
  cases f with
  | function f => exact .returned (.intro hf hvs) h
  | _ =>
    cases h
    exact .raised (.callee hf hvs nofun)

theorem ends_assign {targets : List QualifiedName} {value : Expr} {span : Span} {v : Value}
    (hv : (value.evalWith call env).result = .ok v)
    (h : ((Expr.assign targets value span).evalWith call env).result = .error s) :
    Ends call (.assign targets value span) env s := by
  rw [evalWith, EvalM.bind_of_ok hv] at h
  have hassigns := assignsAll v targets (value.evalWith call env).env
  rcases EvalM.of_bind_eq_error h with h | ⟨_, _, h⟩
  · generalize assignAll v targets (value.evalWith call env).env = run at h hassigns
    cases hassigns with
    | all => cases h
    | refused split writes refused =>
      cases h
      cases split
      exact .raised (.assign hv writes refused)
  · cases h

theorem exists_ends (h : (e.evalWith call env).result = .error s) :
    ∃ n here, Reaches call e env n here ∧ Ends call n here s := by
  induction e generalizing env with
  | number | string | target => cases h
  | unary op operand span ih =>
    rcases EvalM.of_bind_eq_error h with hpart | ⟨v, hv, -⟩
    · obtain ⟨n, here, hreaches, hends⟩ := ih hpart
      exact ⟨n, here, .operand hreaches, hends⟩
    · exact ⟨_, env, .self _ env, ends_unary hv h⟩
  | binary op left right span ihl ihr =>
    rcases EvalM.of_bind_eq_error h with hpart | ⟨l, hl, hrest⟩
    · obtain ⟨n, here, hreaches, hends⟩ := ihl hpart
      exact ⟨n, here, .left hreaches, hends⟩
    rcases EvalM.of_bind_eq_error hrest with hpart | ⟨r, hr, -⟩
    · obtain ⟨n, here, hreaches, hends⟩ := ihr hpart
      exact ⟨n, here, .right hl hreaches, hends⟩
    · exact ⟨_, env, .self _ env, ends_binary hl hr h⟩
  | name ident span => exact ⟨_, env, .self _ env, ends_name h⟩
  | member rest ident span ih =>
    rcases EvalM.of_bind_eq_error h with hpart | ⟨v, hv, -⟩
    · obtain ⟨n, here, hreaches, hends⟩ := ih hpart
      exact ⟨n, here, .scope hreaches, hends⟩
    · exact ⟨_, env, .self _ env, ends_member hv h⟩
  | call callee args span ihc iha =>
    rcases EvalM.of_bind_eq_error h with hpart | ⟨f, hf, hrest⟩
    · obtain ⟨n, here, hreaches, hends⟩ := ihc hpart
      exact ⟨n, here, .callee hreaches, hends⟩
    rcases EvalM.of_bind_eq_error hrest with hpart | ⟨vs, hvs, -⟩
    · obtain ⟨before, arg, later, vs, rfl, hvs, harg⟩ := exists_of_evalArgs_error hpart
      obtain ⟨n, here, hreaches, hends⟩ := iha arg List.mem_append_cons_self harg
      exact ⟨n, here, .arg hf hvs hreaches, hends⟩
    · exact ⟨_, env, .self _ env, ends_call hf hvs h⟩
  | assign targets value span ih =>
    rcases EvalM.of_bind_eq_error h with hpart | ⟨v, hv, -⟩
    · obtain ⟨n, here, hreaches, hends⟩ := ih hpart
      exact ⟨n, here, .value hreaches, hends⟩
    · exact ⟨_, env, .self _ env, ends_assign hv h⟩

theorem exists_ends_iff :
    (e.evalWith call env).result = .error s ↔
      ∃ n here, Reaches call e env n here ∧ Ends call n here s := by
  constructor
  · exact exists_ends
  · rintro ⟨n, here, hreaches, hends⟩
    exact (hreaches.stopsIn hends.result_eq).result

inductive Raised (call : Caller) (e : Expr) (env : Environment) (cause : EvalError) : Prop where
  | intro {n : Expr} {here : Environment} (node : n ∈ e.nodes) (reaches : Reaches call e env n here)
    (raises : n.Raises call here cause)

/-- A function that a node of the formula calls returns the error, and its log is the last. -/
inductive Returned (call : Caller) (e : Expr) (env : Environment) (cause : EvalError) : Prop where
  | intro {n : Expr} {here there : Environment} {f : Function} {args : List Value}
    (node : n ∈ e.nodes) (reaches : Reaches call e env n here)
    (invokes : n.Invokes call here f args there)
    (result : (call f args there).result = .error (.error cause))
    (log : (call f args there).calls <:+ (e.evalWith call env).calls)

end Expr

theorem Library.mem_calls_of_error {library : Library} {fuel : Nat} {f : Function}
    {args : List Value} {env : Environment} {cause : EvalError}
    (h : (library.call fuel f args env).result = .error (.error cause)) :
    ⟨f, f.arguments args⟩ ∈ (library.call fuel f args env).calls := by
  cases fuel with
  | zero => cases h
  | succ fuel =>
    rw [library.call_succ]
    exact List.mem_cons_self

/-- However functions are called, an error is raised by a node or returned by a function, which a
native function is logged for. -/
theorem error_iff_raised_or_returned (call : Caller) (e : Expr) (env : Environment)
    (cause : EvalError) :
    ((e.evalWith call env).result = .error (.error cause) ↔
      e.Raised call env cause ∨ e.Returned call env cause) ∧
    (∀ function expected actual, ¬ e.Raised call env (.arity function expected actual)) ∧
    ∀ (library : Library) (fuel : Nat) (f : Function) (args : List Value) (there : Environment),
      (library.call fuel f args there).result = .error (.error cause) →
        ⟨f, f.arguments args⟩ ∈ (library.call fuel f args there).calls := by
  refine ⟨⟨fun h => ?_, fun h => ?_⟩, ?_, fun _ _ _ _ _ => Library.mem_calls_of_error⟩
  · obtain ⟨n, here, hreaches, hends⟩ := Expr.exists_ends_iff.mp h
    cases hends with
    | raised hraises => exact .inl ⟨hreaches.mem_nodes, hreaches, hraises⟩
    | returned invokes hresult =>
      have hcall := invokes.eval_stopsIn hresult
      have hcalls := ((hreaches.stopsIn hcall.result).trans hcall).calls
      exact .inr ⟨hreaches.mem_nodes, hreaches, invokes, hresult, hcalls⟩
  · rcases h with ⟨_, reaches, raises⟩ | ⟨_, reaches, invokes, result, _⟩
    · exact Expr.exists_ends_iff.mpr ⟨_, _, reaches, .raised raises⟩
    · exact Expr.exists_ends_iff.mpr ⟨_, _, reaches, .returned invokes result⟩
  · rintro function expected actual ⟨_, _, raises⟩
    cases raises

-- The inner call fails, so the outer one is not made.
example :
    let f : Function := .plain "f" ⟨0⟩
    let library : Library := fun _ args => .done ((f.checkArity args 1).map fun _ => .bool true)
    let env := (Environment.root false).bind "f" (.function f)
    let inner := Build.call (Build.name "f") []
    let run := (Build.call (Build.name "f") [inner]).eval library 1 env
    run.result = .error (.error (.arity "f" 1 0)) ∧ run.calls = [⟨f, []⟩] := ⟨rfl, rfl⟩

end ScopedFormulas
