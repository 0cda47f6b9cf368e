import ScopedFormulas.Check

namespace ScopedFormulas

inductive Operation where
  | lookup (name : String) (scope : Option Value)
  | assign (path : List String) (v : Value)
  | seed (name : String) (v : Value)
  | defineMethod (t : ValueType) (f : Function)
  | push (readOnly : Bool)
  | pop
  | evaluate (formula : Expr)
  | evaluateAll (formulas : List Expr)
  | check (expected : ValueType) (formulas : List Expr)

inductive Answer where
  | done
  | found (v : Option Value)
  | assigned (result : Except AssignError Unit)
  | entered (depth : Nat) (readOnly : Bool)
  | atRoot
  | value (result : Except Stop Value) (calls : List Invocation)
  | last (result : Except Stop (Option Value)) (calls : List Invocation)
  | outcome (result : Except Stop CheckOutcome) (calls : List Invocation)

def Answer.ofScope (env : Environment) : Answer := .entered env.depth env.scope.readOnly

def Operation.perform (library : Library) (fuel : Nat) (op : Operation) (env : Environment) :
    Answer × Environment :=
  match op with
  | lookup name scope => (.found (env.lookup? name scope), env)
  | assign path v => (.assigned (env.assign path v).1, (env.assign path v).2)
  | seed name v => (.done, env.bind name v)
  | defineMethod t f => (.done, env.defineMethod t f)
  | push readOnly => (.ofScope (env.push readOnly), env.push readOnly)
  | pop =>
    match env.pop? with
    | some parent => (.ofScope parent, parent)
    | none => (.atRoot, env)
  | evaluate formula =>
    let run := formula.eval library fuel env
    (.value run.result run.calls, run.env)
  | evaluateAll formulas =>
    let run := evalAll library fuel formulas env
    (.last run.result run.calls, run.env)
  | check expected formulas =>
    let run := ScopedFormulas.check library fuel expected formulas env
    (.outcome run.result run.calls, run.env)

def perform (library : Library) (fuel : Nat) :
    List Operation → Environment → List Answer × Environment
  | [], env => ([], env)
  | op :: ops, env =>
    let first := op.perform library fuel env
    let rest := perform library fuel ops first.2
    (first.1 :: rest.1, rest.2)

/-- With `depth` scopes pushed so far, the operations pop what they push and nothing else. -/
def balanced : Nat → List Operation → Bool
  | depth, [] => depth == 0
  | depth, .push _ :: ops => balanced (depth + 1) ops
  | 0, .pop :: _ => false
  | depth + 1, .pop :: ops => balanced depth ops
  | depth, _ :: ops => balanced depth ops

end ScopedFormulas
