import ScopedFormulas.Proofs.Environment.Assignment
import ScopedFormulas.Proofs.Evaluation.Interchange
import ScopedFormulas.Proofs.Evaluation.Sequence
import ScopedFormulas.Proofs.Session.Basic

/-!
What evaluation leaves alone. A write changes the bindings of the innermost scope and nothing else,
and it never unbinds a name; evaluation only adds up such writes, whatever native functions do and
however it ends. So a session in a new scope that pops what it pushes gives the parent back as it
was.
-/

namespace ScopedFormulas

structure Environment.Frame (before after : Environment) : Prop where
  outer : after.outer = before.outer
  methods : after.scope.methods = before.scope.methods
  readOnly : after.scope.readOnly = before.scope.readOnly
  bound : ∀ name, (before.scope.bindings.get? name).isSome = true →
    (after.scope.bindings.get? name).isSome = true

namespace Environment.Frame

variable {a b c : Environment}

theorem refl (a : Environment) : Frame a a := ⟨rfl, rfl, rfl, fun _ h => h⟩

theorem trans (h : Frame a b) (h' : Frame b c) : Frame a c :=
  ⟨h'.outer.trans h.outer, h'.methods.trans h.methods, h'.readOnly.trans h.readOnly,
    fun name hname => h'.bound name (h.bound name hname)⟩

theorem bind (env : Environment) (name : String) (v : Value) : Frame env (env.bind name v) := by
  refine ⟨rfl, rfl, rfl, fun other hother => ?_⟩
  simp only [Environment.bind, Table.get?_insert]
  split
  · rfl
  · exact hother

theorem assign (env : Environment) (path : List String) (v : Value) :
    Frame env (env.assign path v).2 := by
  rcases hout : env.assign path v with ⟨result, after⟩
  cases assign_eq_iff.mp hout with
  | readOnly | emptyTarget | notNamespace => exact refl env
  | name | member => exact bind env _ _
  | blocked =>
    rw [adopt]
    split
    · exact refl env
    · exact bind env _ _

theorem interchange (env : Environment) : Interchange fun e e' => e = e' ∧ Frame env e :=
  .ofInvariant (fun e path v h => h.trans (assign e path v)) fun e name v h => h.trans (bind e name v)

theorem eval (library : Library) (fuel : Nat) (e : Expr) (env : Environment) :
    Frame env (e.eval library fuel env).env :=
  (((interchange env).eval library fuel e).exact ⟨rfl, refl env⟩).2.2.2

theorem evalAll (library : Library) (fuel : Nat) (formulas : List Expr) (env : Environment) :
    Frame env (evalAll library fuel formulas env).env :=
  (((interchange env).evalAll library fuel formulas).exact ⟨rfl, refl env⟩).2.2.2

end Environment.Frame

variable {depth : Nat} {op : Operation} {ops : List Operation} {env : Environment}
  {parent : List Scope}

theorem Operation.drop_outer (library : Library) (fuel : Nat)
    (h : balanced depth (op :: ops) = true) (hp : parent ≠ [])
    (henv : env.outer.drop depth = parent) :
    ∃ depth', balanced depth' ops = true ∧
      (op.perform library fuel env).2.outer.drop depth' = parent := by
  cases op with
  | push readOnly => exact ⟨depth + 1, h, henv⟩
  | pop =>
    cases depth with
    | zero => cases h
    | succ depth =>
      refine ⟨depth, h, ?_⟩
      cases houter : env.outer with
      | nil =>
        rw [houter] at henv
        exact absurd henv.symm hp
      | cons s rest =>
        rw [houter] at henv
        simpa only [Operation.perform, Environment.pop?, houter, List.drop_succ_cons] using henv
  | lookup | seed | defineMethod => exact ⟨depth, h, henv⟩
  | assign path v =>
    exact ⟨depth, h, (congrArg _ (Environment.Frame.assign env path v).outer).trans henv⟩
  | evaluate formula =>
    have hframe := Environment.Frame.eval library fuel formula env
    exact ⟨depth, h, (congrArg _ hframe.outer).trans henv⟩
  | evaluateAll formulas =>
    have hframe := Environment.Frame.evalAll library fuel formulas env
    exact ⟨depth, h, (congrArg _ hframe.outer).trans henv⟩
  | check expected formulas =>
    have hframe := Environment.Frame.evalAll library fuel formulas env
    refine ⟨depth, h, ?_⟩
    simp only [Operation.perform, check_eq, CheckOutcome.ofRun]
    exact (congrArg _ hframe.outer).trans henv

theorem outer_perform (library : Library) (fuel : Nat) (h : balanced depth ops = true)
    (hp : parent ≠ []) (henv : env.outer.drop depth = parent) :
    (perform library fuel ops env).2.outer = parent := by
  induction ops generalizing depth env with
  | nil =>
    cases depth with
    | zero => exact henv
    | succ depth => cases h
  | cons op ops ih =>
    obtain ⟨depth', h', henv'⟩ := op.drop_outer library fuel h hp henv
    exact ih h' henv'

theorem pop?_eq_of_outer {env parent : Environment} (h : env.outer = parent.scopes) :
    env.pop? = some parent := by
  rw [Environment.pop?, h]
  rfl

theorem outer_scopes_unchanged (parent : Environment) (readOnly : Bool) (library : Library)
    (fuel : Nat) :
    (∀ ops, balanced 0 ops = true →
      (perform library fuel ops (parent.push readOnly)).2.pop? = some parent) ∧
      ∀ (env : Environment) (e : Expr), env.Frame (e.eval library fuel env).env := by
  constructor
  · intro ops h
    have hp : parent.scopes ≠ [] := List.cons_ne_nil _ _
    exact pop?_eq_of_outer (outer_perform library fuel h hp rfl)
  · intro env e
    exact .eval library fuel e env

theorem outer_scopes_unchanged_nested :
    let parent := (Environment.root false).bind "ns" (.group (.ofList [("x", .text "1")]))
    let write := Expr.assign [.member (.root (.synthetic "ns")) (.synthetic "x")]
      (.string "'2'" .synthetic) .synthetic
    let ops := [.evaluate write, .push true, .evaluate write, .seed "ns" (.text "3"), .pop,
      .assign ["ns", "x", "y"] (.text "4")]
    balanced 0 ops = true ∧
      ∀ library fuel, (perform library fuel ops (parent.push false)).2.pop? = some parent := by
  intro parent write ops
  have hops : balanced 0 ops = true := rfl
  exact ⟨hops, fun library fuel => (outer_scopes_unchanged parent false library fuel).1 ops hops⟩

end ScopedFormulas
