import ScopedFormulas.Evaluation.Operation
import ScopedFormulas.Evaluation.Run

/-!
Evaluation of formulas. A node is evaluated after its parts, from left to right, and every part is
evaluated, whatever the operator; the first failure ends the run. Evaluation is stated for any way
to call a function, and `call` closes the circle by running native bodies, in which calls may be
nested as deep as the fuel allows.
-/

namespace ScopedFormulas

open EvalM

/-- The body of a native function, as a tree of the steps it takes in the environment of its caller,
each with what follows for every answer. -/
inductive Action where
  | done (result : Except EvalError Value)
  | assign (path : List String) (v : Value) (next : Except AssignError Unit → Action)
  /-- Binds a name, even in a read-only scope. -/
  | seed (name : String) (v : Value) (next : Action)
  | lookup (name : String) (scope : Option Value) (next : Option Value → Action)
  | evaluate (formula : Expr) (next : Except EvalError Value → Action)
  | call (f : Function) (args : List Value) (next : Except EvalError Value → Action)

abbrev Library := NativeId → List Value → Action

def Callable.checkArity (f : Callable Value) (args : List Value) (expected : Nat) :
    Except EvalError Unit :=
  if args.length = expected then .ok () else .error (.arity f.name expected args.length)

abbrev Caller := Function → List Value → EvalM Value

def Value.bindMethod (scope : Value) : Value → Value
  | .function f => .function (if f.isMethod then f.bind scope else f)
  | v => v

theorem Value.bindMethod_preserves {p : Value → Prop} {v w : Value}
    (h : ∀ f : Function, p (.function f) → p (.function (f.bind v))) (hw : p w) :
    p (v.bindMethod w) := by
  cases w with
  | function f =>
    rw [bindMethod]
    split
    · exact h f hw
    · exact hw
  | _ => exact hw

/-- Writes `v` to each target in turn. The first target that is refused ends the run, and the ones
before it stay written. -/
def assignAll (v : Value) : List QualifiedName → EvalM Unit
  | [] => pure ()
  | target :: targets => do
    match ← modify fun env => env.assign target.segments v with
    | .ok () => assignAll v targets
    | .error cause => fail (.assignment target.segments cause)

def callValue (call : Caller) (callee : Expr) (target : Value) (args : List Value) : EvalM Value :=
  match target with
  | .function f => call f args
  | v => fail (.notCallable callee v.type)

namespace Expr

mutual

def evalWith (call : Caller) : Expr → EvalM Value
  | number value _ => pure (.number value)
  | string raw _ => pure (.text (literalText raw))
  | unary op operand _ => do
    let v ← evalWith call operand
    ofExcept (op.eval v)
  | binary op left right _ => do
    let l ← evalWith call left
    let r ← evalWith call right
    ofExcept (op.eval l r)
  | name ident _ => do
    match ← read fun env => env.name? ident.name with
    | some v => pure v
    | none => fail (.unresolved ident)
  | member rest ident _ => do
    let scope ← evalWith call rest
    match ← read fun env => env.member? scope ident.name with
    | some v => pure (scope.bindMethod v)
    | none => fail (.unresolved ident)
  | target path _ => pure (.array .text (path.segments.map .text))
  | Expr.call callee args _ => do
    let f ← evalWith call callee
    let vs ← evalArgs call args
    callValue call callee f vs
  | assign targets value _ => do
    let v ← evalWith call value
    assignAll v targets
    pure v

def evalArgs (call : Caller) : List Expr → EvalM (List Value)
  | [] => pure []
  | arg :: args => do
    let v ← evalWith call arg
    let vs ← evalArgs call args
    pure (v :: vs)

end

end Expr

def Action.run (call : Caller) : Action → EvalM Value
  | done result => ofExcept result
  | assign path v next => do (next (← modify fun env => env.assign path v)).run call
  | seed name v next => do
    modify fun env => ((), env.bind name v)
    next.run call
  | lookup name scope next => do (next (← read fun env => env.lookup? name scope)).run call
  | evaluate formula next => do (next (← attempt (formula.evalWith call))).run call
  | Action.call f args next => do (next (← attempt (call f args))).run call

/-- Calls a native function, which may nest `fuel` calls, itself included. -/
def Library.call (library : Library) : Nat → Caller
  | 0, _, _ => stop .outOfFuel
  | fuel + 1, f, args => do
    record ⟨f, f.arguments args⟩
    (library f.body (f.arguments args)).run (library.call fuel)

def Expr.eval (library : Library) (fuel : Nat) (e : Expr) : EvalM Value :=
  e.evalWith (library.call fuel)

def evalAllWith (call : Caller) (formulas : List Expr) : EvalM (Option Value) :=
  go none formulas
where
  go (last : Option Value) : List Expr → EvalM (Option Value)
    | [] => pure last
    | e :: rest => do
      let v ← e.evalWith call
      go (some v) rest

def evalAll (library : Library) (fuel : Nat) (formulas : List Expr) : EvalM (Option Value) :=
  evalAllWith (library.call fuel) formulas

end ScopedFormulas
